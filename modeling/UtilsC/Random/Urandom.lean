import UtilsC.Lib.Bytes

/-!
# Random bytes from a device

`uc_random` and `uc_urandom` of `uc_random.c`: the same function for two devices.  The kernel's
answers are arguments, one for each call of `read`; the result is `none` while the answers given do
not bring the loop to its end.
-/

namespace UtilsC
namespace Random

/-- What one call of `read` on the device answers.  A count of 0 is `data []`. -/
inductive ReadAnswer
  | data (bytes : List UInt8)
  | eintr
  | eagain
  | error
  deriving DecidableEq

/-- The read loop, with `got` the bytes stored so far: all bytes stored when it ends. -/
def readLoop (len : Nat) : List ReadAnswer → List UInt8 → Option (List UInt8)
  | [], got => if len ≤ got.length then some got else none
  | answer :: answers, got =>
      if len ≤ got.length then
        some got
      else
        match answer with
        | .data bytes => readLoop len answers (got ++ bytes.take (len - got.length))
        | .eintr => readLoop len answers got
        | .eagain => readLoop len answers got
        | .error => some got

/-- The status and what the buffer holds: it is set to zero first, also when the device cannot be
opened. -/
def readDevice (opened : Bool) (answers : List ReadAnswer) (len : Nat) :
    Option (Int × List UInt8) :=
  if opened = false then
    some (-0x0fe3a13d, List.replicate len 0)
  else
    (readLoop len answers []).map fun got =>
      let left := len - got.length
      (if 0 < left then -0x5d4a2a08 else 0, got ++ List.replicate left 0)

/-- `/dev/random`. -/
def ucRandom (opened : Bool) (answers : List ReadAnswer) (len : Nat) : Option (Int × List UInt8) :=
  readDevice opened answers len

/-- `/dev/urandom`. -/
def ucUrandom (opened : Bool) (answers : List ReadAnswer) (len : Nat) : Option (Int × List UInt8) :=
  readDevice opened answers len

end Random
end UtilsC
