import UtilsC.Lib.Framing

/-!
# A stream with several writers

The writers take turns under a lock.  The holder writes a word in as many pieces as it takes; a
write may also fail, and then every later one does.

* `SharedStream` is the stream with what the holder is about to write.
* `SharedStream.Carries W words` says that the words `words` have been written, one behind the
  other, and at most a beginning of one more.
-/

namespace UtilsC
namespace Lib

/-- `ttl` counts what has been written of `buf`; nothing is left to write when it is all of it. -/
structure SharedStream (ι α : Type) where
  holder : Option ι
  buf : List α
  ttl : Nat
  stream : List α
  broken : Bool

/-- What has been read of a stream stays the same when the stream goes on. -/
theorem take_eq_of_prefix {α : Type} {l l' : List α} (h : l <+: l') {n : Nat}
    (hn : n ≤ l.length) : l'.take n = l.take n := by
  rcases h with ⟨more, rfl⟩
  exact List.take_append_of_le_length hn

namespace SharedStream

variable {ι α : Type}

def ofOpen : SharedStream ι α where
  holder := none
  buf := []
  ttl := 0
  stream := []
  broken := false

section Operations

variable (s : SharedStream ι α)

def lock (i : ι) (word : List α) : Option (SharedStream ι α) :=
  if s.holder.isNone then some { s with holder := some i, buf := word, ttl := 0 } else none

/-- One piece is written. -/
def write (count : Nat) : Option (SharedStream ι α) :=
  if s.broken = false ∧ 0 < count ∧ s.ttl + count ≤ s.buf.length then
    some
      { s with
        ttl := s.ttl + count
        stream := s.stream ++ (s.buf.drop s.ttl).take count }
  else
    none

/-- A write fails, and the writer gives up. -/
def fail : SharedStream ι α :=
  { s with buf := [], ttl := 0, broken := true }

def unlock : Option (SharedStream ι α) :=
  if s.ttl = s.buf.length then some { s with holder := none } else none

end Operations

section Fields

variable {s t : SharedStream ι α}

theorem lock_eq {i : ι} {word : List α} (h : s.lock i word = some t) :
    s.holder = none ∧ t.holder = some i ∧ t.buf = word ∧ t.stream = s.stream := by
  unfold lock at h
  split at h
  · rename_i hfree
    cases h
    exact ⟨Option.isNone_iff_eq_none.1 hfree, rfl, rfl, rfl⟩
  · cases h

theorem write_eq {count : Nat} (h : s.write count = some t) :
    t.holder = s.holder ∧ t.buf = s.buf ∧ s.stream <+: t.stream ∧ t.ttl ≤ t.buf.length := by
  unfold write at h
  split at h
  · rename_i hcount
    cases h
    exact ⟨rfl, rfl, List.prefix_append _ _, hcount.2.2⟩
  · cases h

theorem unlock_eq (h : s.unlock = some t) :
    t.holder = none ∧ t.stream = s.stream ∧ t.ttl = t.buf.length := by
  unfold unlock at h
  split at h
  · rename_i hend
    cases h
    exact ⟨rfl, rfl, hend⟩
  · cases h

end Fields

variable (W : List α → Prop)

/-- What the stream is made of. -/
inductive Carries (s : SharedStream ι α) (words : List (List α)) : Prop
  | whole (hwords : ∀ w ∈ words, W w) (hopen : s.broken = false) (hend : s.ttl = s.buf.length)
      (hstream : s.stream = words.flatten)
  | writing (hwords : ∀ w ∈ words, W w) (hopen : s.broken = false) (hlt : s.ttl < s.buf.length)
      (hword : W s.buf) (hstream : s.stream = words.flatten ++ s.buf.take s.ttl)
  | broken (hwords : ∀ w ∈ words, W w) (hbroken : s.broken = true) (part : List α)
      (hpart : CutShort W part) (hstream : s.stream = words.flatten ++ part)

variable {W} {s t : SharedStream ι α} {words : List (List α)}

theorem ofOpen_carries : (ofOpen : SharedStream ι α).Carries W [] :=
  Carries.whole (by simp) rfl rfl rfl

namespace Carries

theorem all_words (h : s.Carries W words) : ∀ w ∈ words, W w := by
  cases h <;> assumption

theorem lock (hW : PrefixFree W) (h : s.Carries W words) (hend : s.ttl = s.buf.length) {i : ι}
    {word : List α} (hword : W word) (hlock : s.lock i word = some t) : t.Carries W words := by
  unfold SharedStream.lock at hlock
  split at hlock
  · cases hlock
    cases h with
    | whole hwords hopen hend hstream =>
        refine Carries.writing hwords hopen ?_ hword ?_
        · exact List.length_pos_iff.2 (hW.ne_nil hword)
        · simpa using hstream
    | writing hwords hopen hlt => exact absurd hend (Nat.ne_of_lt hlt)
    | broken hwords hbroken part hpart hstream =>
        exact Carries.broken hwords hbroken part hpart hstream
  · cases hlock

/-- A piece that is not the last one of its word. -/
theorem write_part (h : s.Carries W words) {count : Nat} (hwrite : s.write count = some t)
    (hpart : t.ttl < t.buf.length) : t.Carries W words := by
  unfold SharedStream.write at hwrite
  split at hwrite
  · rename_i hcount
    rcases hcount with ⟨hopen, hpos, hle⟩
    cases hwrite
    cases h with
    | whole hwords hopen hend hstream =>
        omega
    | writing hwords hopen hlt hword hstream =>
        refine Carries.writing hwords hopen hpart hword ?_
        simp only [hstream, List.append_assoc, List.take_add]
    | broken hwords hbroken part => simp [hbroken] at hopen
  · cases hwrite

/-- The last piece of a word. -/
theorem write_last (h : s.Carries W words) {count : Nat} (hwrite : s.write count = some t)
    (hlast : t.ttl = t.buf.length) : t.Carries W (words ++ [s.buf]) := by
  unfold SharedStream.write at hwrite
  split at hwrite
  · rename_i hcount
    rcases hcount with ⟨hopen, hpos, hle⟩
    cases hwrite
    cases h with
    | whole hwords hopen hend hstream =>
        omega
    | writing hwords hopen hlt hword hstream =>
        refine Carries.whole ?_ hopen hlast ?_
        · intro w hw
          rcases List.mem_append.1 hw with hold | hnew
          · exact hwords w hold
          · rw [List.mem_singleton.1 hnew]
            exact hword
        · have hall : s.ttl + count = s.buf.length := hlast
          simp only [hstream, List.append_assoc, ← List.take_add, hall, List.take_length,
            List.flatten_append, List.flatten_cons, List.flatten_nil, List.append_nil]
    | broken hwords hbroken part => simp [hbroken] at hopen
  · cases hwrite

theorem fail (hW : PrefixFree W) (h : s.Carries W words) : s.fail.Carries W words := by
  cases h with
  | whole hwords hopen hend hstream =>
      refine Carries.broken hwords rfl [] hW.cutShort_nil ?_
      rw [List.append_nil]
      exact hstream
  | writing hwords hopen hlt hword hstream =>
      exact Carries.broken hwords rfl _ (hW.cutShort_take hword hlt) hstream
  | broken hwords hbroken part hpart hstream =>
      exact Carries.broken hwords rfl part hpart hstream

theorem unlock (h : s.Carries W words) (hunlock : s.unlock = some t) : t.Carries W words := by
  unfold SharedStream.unlock at hunlock
  split at hunlock
  · cases hunlock
    cases h with
    | whole hwords hopen hend hstream => exact Carries.whole hwords hopen hend hstream
    | writing hwords hopen hlt hword hstream =>
        exact Carries.writing hwords hopen hlt hword hstream
    | broken hwords hbroken part hpart hstream =>
        exact Carries.broken hwords hbroken part hpart hstream
  · cases hunlock

/-- The words, and what is cut short behind them. -/
theorem parts (hW : PrefixFree W) (h : s.Carries W words) :
    ∃ part, s.stream = words.flatten ++ part ∧ CutShort W part := by
  cases h with
  | whole hwords hopen hend hstream =>
      refine ⟨[], ?_, hW.cutShort_nil⟩
      rw [List.append_nil]
      exact hstream
  | writing hwords hopen hlt hword hstream => exact ⟨_, hstream, hW.cutShort_take hword hlt⟩
  | broken hwords hbroken part hpart hstream => exact ⟨part, hstream, hpart⟩

/-- A reader that is at work on a beginning of the stream has found the first of its words. -/
theorem found (hW : PrefixFree W) (h : s.Carries W words) {vs : List (List α)} {p : List α}
    (hvs : ∀ v ∈ vs, W v) (hread : vs.flatten ++ p <+: s.stream) : vs <+: words := by
  rcases h.parts hW with ⟨part, hstream, hcut⟩
  rw [hstream] at hread
  exact hW.flatten_prefix_cutShort hvs h.all_words hcut hread

/-- A reader that has read everything has found all of them, unless a word is under way. -/
theorem found_all (hW : PrefixFree W) (h : s.Carries W words) (hopen : s.broken = false)
    (hend : s.ttl = s.buf.length) {vs : List (List α)} {p : List α} (hvs : ∀ v ∈ vs, W v)
    (hp : CutShort W p) (hread : vs.flatten ++ p = s.stream) : vs = words ∧ p = [] := by
  cases h with
  | whole hwords hopen' hend' hstream =>
      rw [hstream] at hread
      exact hW.flatten_eq hvs hwords hp hread
  | writing hwords hopen' hlt => exact absurd hend (Nat.ne_of_lt hlt)
  | broken hwords hbroken part =>
      rw [hbroken] at hopen
      cases hopen

end Carries
end SharedStream
end Lib
end UtilsC
