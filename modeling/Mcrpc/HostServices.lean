import Mcrpc.CanonicalCsv
import Mcrpc.Builders
import Mcrpc.McRpc
import Mcrpc.Lib.Lens

/-!
# The host of a node

`HostServices.h` as far as the features call it. A host is its own code with its own state `S`; a
reference parameter is an argument and a result. `R` is the type of the C floats, of which the
features only use the sign and the text `printf` gives them.
-/

namespace Mcrpc

/-- `fixed d x` is `%.{d}f` of `x`. -/
class CFloat (R : Type*) where
  zero : R
  isPos : R → Bool
  fixed : ℕ → R → Text

instance : CFloat Unit where
  zero := ()
  isPos _ := false
  fixed d _ := "0.".toList ++ List.replicate d '0'

structure GpsFix (R : Type*) where
  valid : Bool
  lat : R
  lon : R
  alt : R
  sats : ℤ
  hdop : R

def GpsFix.zero {R : Type*} [CFloat R] : GpsFix R :=
  ⟨false, CFloat.zero, CFloat.zero, CFloat.zero, 0, CFloat.zero⟩

structure HostServices (S R : Type*) where
  readBattery : R → ℤ → S → (Bool × R × ℤ) × S := fun volts percent s => ((false, volts, percent), s)
  isCharging : S → Bool × S := fun s => (false, s)
  readGps : GpsFix R → S → (Bool × GpsFix R) × S := fun fix s => ((false, fix), s)
  requestGpsFix : S → Bool × S := fun s => (false, s)
  gpsBusy : S → Bool × S := fun s => (false, s)
  readButtonPressed : S → Bool × S := fun s => (false, s)
  displayText : Text → S → Bool × S := fun _ s => (false, s)
  displayClear : S → Bool × S := fun s => (false, s)
  handleCall : Text → Request → ReplyBuffer → S → (Bool × ReplyBuffer) × S :=
    fun _ _ reply s => ((false, reply), s)
  readHeapFree : UInt32 → S → (Bool × UInt32) × S := fun bytes s => ((false, bytes), s)
  readSnr : ℤ → S → (Bool × ℤ) × S := fun snr s => ((false, snr), s)

def HostServices.lift {S W R : Type*} (l : Lens W S) (h : HostServices S R) : HostServices W R where
  readBattery volts percent := l.lift (h.readBattery volts percent)
  isCharging := l.lift h.isCharging
  readGps fix := l.lift (h.readGps fix)
  requestGpsFix := l.lift h.requestGpsFix
  gpsBusy := l.lift h.gpsBusy
  readButtonPressed := l.lift h.readButtonPressed
  displayText text := l.lift (h.displayText text)
  displayClear := l.lift h.displayClear
  handleCall proc req reply := l.lift (h.handleCall proc req reply)
  readHeapFree bytes := l.lift (h.readHeapFree bytes)
  readSnr snr := l.lift (h.readSnr snr)

/-- `%d` -/
def signedDecimal (n : ℤ) : Text :=
  if n < 0 then '-' :: decimal n.natAbs else decimal n.natAbs

end Mcrpc
