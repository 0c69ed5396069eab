import Mathlib.Data.List.Basic
import Mathlib.Data.List.Nodup

/-!
# Chains — keyed lists with first-match operations

A chain is a list whose elements carry a key; every operation walks the list from its head and
acts on the first element with the wanted key.  As long as the keys of a chain are pairwise
different, the operations act on the finite map the chain represents:

* `find?` reads the map;
* `replaceFirst` overwrites one binding;
* `eraseFirst` removes one binding;
* `after?` steps from one binding to the next, so that `visit` goes through the whole chain.
-/

namespace UtilsC
namespace Lib
namespace Chain

variable {ν κ : Type*} [DecidableEq κ] (key : ν → κ)

def find? (k : κ) : List ν → Option ν
  | [] => none
  | n :: rest => if key n = k then some n else find? k rest

/-- Apply `f` to the first element with key `k`. -/
def replaceFirst (k : κ) (f : ν → ν) : List ν → List ν
  | [] => []
  | n :: rest => if key n = k then f n :: rest else n :: replaceFirst k f rest

/-- Unlink the first element with key `k`. -/
def eraseFirst (k : κ) : List ν → List ν
  | [] => []
  | n :: rest => if key n = k then rest else n :: eraseFirst k rest

variable {key}

@[simp] theorem find?_nil (k : κ) : find? key k ([] : List ν) = none := rfl

theorem find?_cons_self {n : ν} {rest : List ν} : find? key (key n) (n :: rest) = some n := by
  simp [find?]

theorem find?_cons_ne {n : ν} {k : κ} {rest : List ν} (h : key n ≠ k) :
    find? key k (n :: rest) = find? key k rest := by
  simp [find?, h]

theorem find?_eq_some {k : κ} {n : ν} :
    ∀ {l : List ν}, find? key k l = some n → n ∈ l ∧ key n = k
  | [], h => by simp at h
  | m :: rest, h => by
      by_cases hm : key m = k
      · have hmn : m = n := by simpa [find?, hm] using h
        exact ⟨by simp [hmn], by simp [← hmn, hm]⟩
      · have hrest : find? key k rest = some n := by simpa [find?, hm] using h
        have ih := find?_eq_some hrest
        exact ⟨by simp [ih.1], ih.2⟩

theorem find?_eq_none_iff {k : κ} {l : List ν} : find? key k l = none ↔ k ∉ l.map key := by
  induction l with
  | nil => simp
  | cons m rest ih =>
      by_cases hm : key m = k
      · simp [find?, hm]
      · have hm' : k ≠ key m := fun h => hm h.symm
        have hstep : find? key k (m :: rest) = find? key k rest := find?_cons_ne hm
        simpa [hstep, hm'] using ih

theorem isSome_find?_iff {k : κ} {l : List ν} : (find? key k l).isSome ↔ k ∈ l.map key := by
  rw [← Option.ne_none_iff_isSome, ne_eq, find?_eq_none_iff, not_not]

/-! ## Overwriting a binding -/

section Replace

variable {k k' : κ} {f : ν → ν} {l : List ν}

theorem map_key_replaceFirst (hf : ∀ n, key (f n) = key n) :
    (replaceFirst key k f l).map key = l.map key := by
  induction l with
  | nil => rfl
  | cons m rest ih =>
      by_cases hm : key m = k
      · simp [replaceFirst, hm, hf]
      · simp [replaceFirst, hm, ih]

theorem length_replaceFirst : (replaceFirst key k f l).length = l.length := by
  induction l with
  | nil => rfl
  | cons m rest ih =>
      by_cases hm : key m = k
      · simp [replaceFirst, hm]
      · simp [replaceFirst, hm, ih]

theorem find?_replaceFirst_self (hf : ∀ n, key (f n) = key n) :
    find? key k (replaceFirst key k f l) = (find? key k l).map f := by
  induction l with
  | nil => rfl
  | cons m rest ih =>
      by_cases hm : key m = k
      · simp [replaceFirst, find?, hm, hf]
      · simp [replaceFirst, find?, hm, ih]

theorem find?_replaceFirst_ne (hf : ∀ n, key (f n) = key n) (hne : k' ≠ k) :
    find? key k' (replaceFirst key k f l) = find? key k' l := by
  induction l with
  | nil => rfl
  | cons m rest ih =>
      by_cases hm : key m = k
      · have hm' : key m ≠ k' := fun h => hne (h.symm.trans hm)
        have hfm : key (f m) ≠ k' := by simpa [hf] using hm'
        simp only [replaceFirst, hm, if_true]
        rw [find?_cons_ne hfm, find?_cons_ne hm']
      · simp only [replaceFirst, hm, if_false, find?, ih]

theorem mem_replaceFirst {n : ν} (h : n ∈ replaceFirst key k f l) :
    n ∈ l ∨ ∃ m ∈ l, n = f m := by
  induction l with
  | nil => simp [replaceFirst] at h
  | cons m rest ih =>
      by_cases hm : key m = k
      · have hcases : n = f m ∨ n ∈ rest := by simpa [replaceFirst, hm] using h
        rcases hcases with hn | hn
        · exact Or.inr ⟨m, by simp, hn⟩
        · exact Or.inl (by simp [hn])
      · have hcases : n = m ∨ n ∈ replaceFirst key k f rest := by
          simpa [replaceFirst, hm] using h
        rcases hcases with hn | hn
        · exact Or.inl (by simp [hn])
        · rcases ih hn with hrest | ⟨m', hm', hn'⟩
          · exact Or.inl (by simp [hrest])
          · exact Or.inr ⟨m', by simp [hm'], hn'⟩

end Replace

/-! ## Removing a binding -/

section Erase

variable {k k' : κ} {l : List ν}

theorem eraseFirst_sublist : (eraseFirst key k l).Sublist l := by
  induction l with
  | nil => simp [eraseFirst]
  | cons m rest ih =>
      by_cases hm : key m = k
      · simp [eraseFirst, hm]
      · simpa [eraseFirst, hm] using ih

theorem eraseFirst_of_not_mem (h : k ∉ l.map key) : eraseFirst key k l = l := by
  induction l with
  | nil => rfl
  | cons m rest ih =>
      have hne : key m ≠ k := fun hm => h (by simp [hm])
      have hrest : k ∉ rest.map key := fun hk => h (List.mem_cons_of_mem _ hk)
      simp [eraseFirst, hne, ih hrest]

theorem mem_eraseFirst_of_ne {n : ν} (hmem : n ∈ l) (hne : key n ≠ k) :
    n ∈ eraseFirst key k l := by
  induction l with
  | nil => simp at hmem
  | cons m rest ih =>
      by_cases hm : key m = k
      · have hrest : n ∈ rest := by
          rcases List.mem_cons.1 hmem with hn | hn
          · exact absurd (hn ▸ hm) hne
          · exact hn
        simpa [eraseFirst, hm] using hrest
      · rcases List.mem_cons.1 hmem with hn | hn
        · simp [eraseFirst, hm, hn]
        · simp [eraseFirst, hm, ih hn]

theorem length_eraseFirst_of_mem (h : k ∈ l.map key) :
    (eraseFirst key k l).length + 1 = l.length := by
  induction l with
  | nil => simp at h
  | cons m rest ih =>
      by_cases hm : key m = k
      · simp [eraseFirst, hm]
      · have hne : k ≠ key m := fun hk => hm hk.symm
        have hrest : k ∈ rest.map key := by
          rcases List.mem_cons.1 h with hk | hk
          · exact absurd hk hne
          · exact hk
        simp [eraseFirst, hm, ih hrest]

/-- With pairwise different keys, unlinking the first element with key `k` unbinds `k`. -/
theorem find?_eraseFirst_self (hnd : (l.map key).Nodup) :
    find? key k (eraseFirst key k l) = none := by
  induction l with
  | nil => rfl
  | cons m rest ih =>
      have hnd' : key m ∉ rest.map key ∧ (rest.map key).Nodup := by simpa using hnd
      by_cases hm : key m = k
      · have hk : k ∉ rest.map key := by simpa [hm] using hnd'.1
        simpa [eraseFirst, hm] using find?_eq_none_iff.2 hk
      · simp [eraseFirst, find?, hm, ih hnd'.2]

theorem find?_eraseFirst_ne (hne : k' ≠ k) :
    find? key k' (eraseFirst key k l) = find? key k' l := by
  induction l with
  | nil => rfl
  | cons m rest ih =>
      by_cases hm : key m = k
      · have hm' : key m ≠ k' := fun h => hne (h.symm.trans hm)
        simp only [eraseFirst, hm, if_true]
        rw [find?_cons_ne hm']
      · simp only [eraseFirst, hm, if_false, find?, ih]

end Erase

/-! ## The elements as a multiset -/

section Perm

variable {k : κ} {f : ν → ν} {n : ν} {l : List ν}

theorem perm_replaceFirst (hfind : find? key k l = some n) :
    (n :: replaceFirst key k f l).Perm (f n :: l) := by
  induction l with
  | nil => simp at hfind
  | cons m rest ih =>
      by_cases hm : key m = k
      · have hmn : m = n := by simpa [find?, hm] using hfind
        subst hmn
        simpa [replaceFirst, hm] using List.Perm.swap (f m) m rest
      · have hrest : find? key k rest = some n := by simpa [find?, hm] using hfind
        have hswap := (List.Perm.swap m n (replaceFirst key k f rest)).trans ((ih hrest).cons m)
        simpa [replaceFirst, hm] using hswap.trans (List.Perm.swap (f n) m rest)

/-- The first match, in its place. -/
theorem split_of_find? (hfind : find? key k l = some n) (f : ν → ν) :
    ∃ pre post, l = pre ++ n :: post ∧ replaceFirst key k f l = pre ++ f n :: post := by
  induction l with
  | nil => simp at hfind
  | cons m rest ih =>
      by_cases hm : key m = k
      · have hmn : m = n := by simpa [find?, hm] using hfind
        subst hmn
        exact ⟨[], rest, rfl, by simp [replaceFirst, hm]⟩
      · have hrest : find? key k rest = some n := by simpa [find?, hm] using hfind
        rcases ih hrest with ⟨pre, post, hl, hreplace⟩
        exact ⟨m :: pre, post, by rw [hl]; rfl, by simp [replaceFirst, hm, hreplace]⟩

theorem perm_eraseFirst (hfind : find? key k l = some n) : (n :: eraseFirst key k l).Perm l := by
  induction l with
  | nil => simp at hfind
  | cons m rest ih =>
      by_cases hm : key m = k
      · have hmn : m = n := by simpa [find?, hm] using hfind
        subst hmn
        simp [eraseFirst, hm]
      · have hrest : find? key k rest = some n := by simpa [find?, hm] using hfind
        have hswap := List.Perm.swap m n (eraseFirst key k rest)
        simpa [eraseFirst, hm] using hswap.trans ((ih hrest).cons m)

end Perm

/-! ## Concatenated chains -/

section Append

variable {k : κ} {f : ν → ν} {l l' : List ν}

theorem find?_append_of_not_mem (h : k ∉ l.map key) :
    find? key k (l ++ l') = find? key k l' := by
  induction l with
  | nil => rfl
  | cons m rest ih =>
      have hne : key m ≠ k := fun hm => h (by simp [hm])
      have hrest : k ∉ rest.map key := fun hk => h (List.mem_cons_of_mem _ hk)
      rw [List.cons_append, find?_cons_ne hne, ih hrest]

theorem find?_append_of_not_mem_right (h : k ∉ l'.map key) :
    find? key k (l ++ l') = find? key k l := by
  induction l with
  | nil => simpa using find?_eq_none_iff.2 h
  | cons m rest ih =>
      by_cases hm : key m = k
      · simp [find?, hm]
      · simp [find?, hm, ih]

theorem replaceFirst_of_not_mem (h : k ∉ l.map key) : replaceFirst key k f l = l := by
  induction l with
  | nil => rfl
  | cons m rest ih =>
      have hne : key m ≠ k := fun hm => h (by simp [hm])
      have hrest : k ∉ rest.map key := fun hk => h (List.mem_cons_of_mem _ hk)
      simp [replaceFirst, hne, ih hrest]

theorem replaceFirst_append_of_not_mem (h : k ∉ l.map key) :
    replaceFirst key k f (l ++ l') = l ++ replaceFirst key k f l' := by
  induction l with
  | nil => rfl
  | cons m rest ih =>
      have hne : key m ≠ k := fun hm => h (by simp [hm])
      have hrest : k ∉ rest.map key := fun hk => h (List.mem_cons_of_mem _ hk)
      simp [replaceFirst, hne, ih hrest]

theorem replaceFirst_append_of_not_mem_right (h : k ∉ l'.map key) :
    replaceFirst key k f (l ++ l') = replaceFirst key k f l ++ l' := by
  induction l with
  | nil => exact replaceFirst_of_not_mem h
  | cons m rest ih =>
      by_cases hm : key m = k
      · simp [replaceFirst, hm]
      · simp [replaceFirst, hm, ih]

theorem eraseFirst_append_of_not_mem (h : k ∉ l.map key) :
    eraseFirst key k (l ++ l') = l ++ eraseFirst key k l' := by
  induction l with
  | nil => rfl
  | cons m rest ih =>
      have hne : key m ≠ k := fun hm => h (by simp [hm])
      have hrest : k ∉ rest.map key := fun hk => h (List.mem_cons_of_mem _ hk)
      simp [eraseFirst, hne, ih hrest]

theorem eraseFirst_append_of_not_mem_right (h : k ∉ l'.map key) :
    eraseFirst key k (l ++ l') = eraseFirst key k l ++ l' := by
  induction l with
  | nil => exact eraseFirst_of_not_mem h
  | cons m rest ih =>
      by_cases hm : key m = k
      · simp [eraseFirst, hm]
      · simp [eraseFirst, hm, ih]

end Append

/-! ## Walking along a chain -/

/-- The element behind the first one with key `k`: `none` when no element has the key,
`some none` when it is the last. -/
def after? (key : ν → κ) (k : κ) : List ν → Option (Option ν)
  | [] => none
  | n :: rest => if key n = k then some rest.head? else after? key k rest

/-- The loop `while (n) n = next(n)`, at most `fuel` rounds: the elements it sees. -/
def visit (next : ν → Option ν) : Nat → Option ν → Option (List ν)
  | _, none => some []
  | 0, some _ => none
  | fuel + 1, some n => (visit next fuel (next n)).map (n :: ·)

section Walk

variable {k : κ} {l l' : List ν}

theorem after?_eq_none_iff : after? key k l = none ↔ k ∉ l.map key := by
  induction l with
  | nil => simp [after?]
  | cons m rest ih =>
      by_cases hm : key m = k
      · simp [after?, hm]
      · have hne : k ≠ key m := fun h => hm h.symm
        simpa [after?, hm, hne] using ih

theorem after?_append_of_not_mem (h : k ∉ l.map key) :
    after? key k (l ++ l') = after? key k l' := by
  induction l with
  | nil => rfl
  | cons m rest ih =>
      have hne : key m ≠ k := fun hm => h (by simp [hm])
      have hrest : k ∉ rest.map key := fun hk => h (List.mem_cons_of_mem _ hk)
      simp [after?, hne, ih hrest]

/-- The last element of the first part is followed by the head of the second part. -/
theorem after?_append_of_some {o : Option ν} (h : after? key k l = some o) :
    after? key k (l ++ l') = some (o.or l'.head?) := by
  induction l with
  | nil => simp [after?] at h
  | cons m rest ih =>
      by_cases hm : key m = k
      · have ho : rest.head? = o := by simpa [after?, hm] using h
        simp [after?, hm, ← ho, List.head?_append]
      · have hrest : after? key k rest = some o := by simpa [after?, hm] using h
        simp [after?, hm, ih hrest]

theorem after?_cons_self {n : ν} {rest : List ν} :
    after? key (key n) (n :: rest) = some rest.head? := by
  simp [after?]

omit [DecidableEq κ] in
/-- A loop whose `next` leads from each element of `l` to the one behind it sees exactly `l`. -/
theorem visit_eq {next : ν → Option ν} {fuel : Nat} (hfuel : l.length ≤ fuel)
    (hnext : ∀ pre n post, l = pre ++ n :: post → next n = post.head?) :
    visit next fuel l.head? = some l := by
  induction l generalizing fuel with
  | nil => cases fuel <;> rfl
  | cons n rest ih =>
      cases fuel with
      | zero => simp at hfuel
      | succ fuel =>
          have hlen : rest.length ≤ fuel := by simpa using hfuel
          have hfirst : next n = rest.head? := hnext [] n rest rfl
          have hrest := ih hlen fun pre m post hl => hnext (n :: pre) m post (by simp [hl])
          show (visit next fuel (next n)).map (n :: ·) = some (n :: rest)
          rw [hfirst, hrest]
          rfl

end Walk

end Chain
end Lib
end UtilsC
