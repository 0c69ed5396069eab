import Mathlib.Data.List.Basic

/-!
# Framing — sequences of words in one stream

Words from a prefix-free set can be sent one after another without anything between them: the
stream has only one reading.

* `PrefixFree W` says that no word of `W` begins another one; `CutShort W p` that `p` begins with no
  word.
* `PrefixFree.flatten_prefix` is for a reader that is under way: the words it has found are the
  first of the words that were sent.
* `PrefixFree.flatten_prefix_cutShort` allows for a last word that has not been sent to its end.
* `PrefixFree.flatten_eq` is for a reader that has seen the whole stream: it has found all of them.
-/

namespace UtilsC
namespace Lib

variable {α : Type}

structure PrefixFree (W : List α → Prop) : Prop where
  ne_nil : ∀ {w : List α}, W w → w ≠ []
  eq_of_prefix : ∀ {v w : List α}, W v → W w → v <+: w → v = w

/-- No word has been completed. -/
def CutShort (W : List α → Prop) (p : List α) : Prop :=
  ∀ w, W w → ¬ w <+: p

namespace PrefixFree

variable {W : List α → Prop}

/-- Two words that begin the same stream are equal. -/
theorem eq_of_prefix_same (hW : PrefixFree W) {v w s : List α} (hv : W v) (hw : W w)
    (hvs : v <+: s) (hws : w <+: s) : v = w := by
  rcases List.prefix_or_prefix_of_prefix hvs hws with h | h
  · exact hW.eq_of_prefix hv hw h
  · exact (hW.eq_of_prefix hw hv h).symm

theorem flatten_prefix (hW : PrefixFree W) {vs : List (List α)} :
    ∀ {ws : List (List α)} {p : List α}, (∀ v ∈ vs, W v) → (∀ w ∈ ws, W w) →
      vs.flatten ++ p <+: ws.flatten → vs <+: ws := by
  induction vs with
  | nil => exact fun _ _ _ => List.nil_prefix
  | cons v vs ih =>
      intro ws p hvs hws h
      rw [List.flatten_cons, List.append_assoc] at h
      have hv := hvs v List.mem_cons_self
      cases ws with
      | nil =>
          have hnil := List.prefix_nil.1 ((List.prefix_append v _).trans h)
          exact absurd hnil (hW.ne_nil hv)
      | cons w ws =>
          have hw := hws w List.mem_cons_self
          -- both words begin the stream, so they are the same, and the rest is as before
          have hsame : v = w := hW.eq_of_prefix_same hv hw
            ((List.prefix_append v _).trans h) (List.prefix_append w _)
          subst hsame
          have hrest : vs.flatten ++ p <+: ws.flatten := (List.prefix_append_right_inj v).1 h
          have hvs' := fun u hu => hvs u (List.mem_cons_of_mem _ hu)
          have hws' := fun u hu => hws u (List.mem_cons_of_mem _ hu)
          exact List.cons_prefix_cons.2 ⟨rfl, ih hvs' hws' hrest⟩

theorem flatten_eq (hW : PrefixFree W) {vs ws : List (List α)} {p : List α}
    (hvs : ∀ v ∈ vs, W v) (hws : ∀ w ∈ ws, W w) (hp : CutShort W p)
    (h : vs.flatten ++ p = ws.flatten) : vs = ws ∧ p = [] := by
  have hwhole : vs.flatten ++ p <+: ws.flatten := h ▸ List.prefix_rfl
  have hprefix : vs <+: ws := hW.flatten_prefix hvs hws hwhole
  rcases hprefix with ⟨us, rfl⟩
  rw [List.flatten_append] at h
  have hrest : p = us.flatten := List.append_cancel_left h
  cases us with
  | nil => exact ⟨(List.append_nil vs).symm, hrest⟩
  | cons u us =>
      -- a word that is still to come would begin what has been read of it
      have hu : W u := hws u (List.mem_append_right _ List.mem_cons_self)
      refine absurd ?_ (hp u hu)
      rw [hrest, List.flatten_cons]
      exact List.prefix_append u _

/-- What is cut short at the end of the stream does not matter to a reader. -/
theorem flatten_prefix_cutShort (hW : PrefixFree W) {vs : List (List α)} :
    ∀ {ws : List (List α)} {p part : List α}, (∀ v ∈ vs, W v) → (∀ w ∈ ws, W w) →
      CutShort W part → vs.flatten ++ p <+: ws.flatten ++ part → vs <+: ws := by
  induction vs with
  | nil => exact fun _ _ _ _ => List.nil_prefix
  | cons v vs ih =>
      intro ws p part hvs hws hpart h
      rw [List.flatten_cons, List.append_assoc] at h
      have hv := hvs v List.mem_cons_self
      cases ws with
      | nil => exact absurd ((List.prefix_append v _).trans h) (hpart v hv)
      | cons w ws =>
          have hw := hws w List.mem_cons_self
          rw [List.flatten_cons, List.append_assoc] at h
          have hsame : v = w := hW.eq_of_prefix_same hv hw
            ((List.prefix_append v _).trans h) (List.prefix_append w _)
          subst hsame
          have hvs' := fun u hu => hvs u (List.mem_cons_of_mem _ hu)
          have hws' := fun u hu => hws u (List.mem_cons_of_mem _ hu)
          exact List.cons_prefix_cons.2
            ⟨rfl, ih hvs' hws' hpart ((List.prefix_append_right_inj v).1 h)⟩

theorem cutShort_nil (hW : PrefixFree W) : CutShort W [] :=
  fun _ hw hbegins => hW.ne_nil hw (List.prefix_nil.1 hbegins)

/-- A beginning of a word that is not the whole word. -/
theorem cutShort_take (hW : PrefixFree W) {w : List α} (hw : W w) {n : Nat} (hn : n < w.length) :
    CutShort W (w.take n) := by
  intro v hv hbegins
  have hsame : v = w := hW.eq_of_prefix hv hw (hbegins.trans (List.take_prefix n w))
  have hlen := hbegins.length_le
  rw [hsame, List.length_take] at hlen
  omega

end PrefixFree
end Lib
end UtilsC
