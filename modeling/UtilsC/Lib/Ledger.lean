import Mathlib.Data.List.Perm.Subperm
import Mathlib.Data.List.Nodup
import Mathlib.Logic.Function.Basic

/-!
# Ledgers — where the blocks handed to a component are

A component takes over blocks of memory from its callers; later it frees them or hands them back.
The ledger keeps the set of live blocks and, of the blocks the component ever accepted, the ones
it holds, the ones it freed and the ones it handed back.

* `freeAll` frees blocks one after another, and fails at the first one that is not live.
* `exchange` is one operation of the component: it takes blocks in, frees some and hands some
  back, and ends up holding the rest.
* `Balanced` says that every accepted block is in exactly one place; `exchange_balanced` is the
  step lemma.
-/

namespace UtilsC
namespace Lib

structure Ledger (β : Type*) where
  live : β → Bool
  held : List β
  accepted : List β
  freed : List β
  handed : List β

namespace Ledger

variable {β : Type*} [DecidableEq β]

/-- Nothing was accepted yet. -/
def new (live : β → Bool) : Ledger β :=
  { live := live, held := [], accepted := [], freed := [], handed := [] }

def freeAll (live : β → Bool) : List β → Option (β → Bool)
  | [] => some live
  | p :: ps => if live p = true then freeAll (Function.update live p false) ps else none

/-- The component accepts `ins`, frees `frees`, hands `back` to its caller and holds `held`
afterwards.  A block that was handed back earlier may be accepted again. -/
def exchange (l : Ledger β) (held ins frees back : List β) : Option (Ledger β) :=
  (freeAll l.live frees).map fun live =>
    { live := live
      held := held
      accepted := ins ++ l.accepted
      freed := l.freed ++ frees
      handed := back ++ l.handed.filter (· ∉ ins) }

/-- A block that may be passed in: it is live and not held already. -/
def offered (l : Ledger β) (p : β) : Bool :=
  l.live p && !l.held.contains p

structure Balanced (l : Ledger β) : Prop where
  one_place : (l.held ++ l.freed ++ l.handed).Nodup
  accounted : ∀ p, p ∈ l.accepted ↔ p ∈ l.held ++ l.freed ++ l.handed
  held_live : ∀ p ∈ l.held, l.live p = true
  freed_dead : ∀ p ∈ l.freed, l.live p = false

omit [DecidableEq β] in
theorem balanced_new (live : β → Bool) : (new live).Balanced where
  one_place := List.nodup_nil
  accounted := by simp [new]
  held_live := by simp [new]
  freed_dead := by simp [new]

theorem freeAll_eq : ∀ {ps : List β} {live : β → Bool}, ps.Nodup → (∀ p ∈ ps, live p = true) →
    ∃ live', freeAll live ps = some live' ∧ ∀ p, live' p = true ↔ live p = true ∧ p ∉ ps
  | [], live, _, _ => ⟨live, rfl, fun p => by simp⟩
  | q :: ps, live, hnd, hlive => by
      have hnd' := List.nodup_cons.1 hnd
      have hrest : ∀ p ∈ ps, Function.update live q false p = true := by
        intro p hp
        have hne : p ≠ q := fun h => hnd'.1 (h ▸ hp)
        rw [Function.update_of_ne hne]
        exact hlive p (List.mem_cons_of_mem _ hp)
      rcases freeAll_eq hnd'.2 hrest with ⟨live', hfree, hiff⟩
      refine ⟨live', ?_, ?_⟩
      · have hq : live q = true := hlive q List.mem_cons_self
        simpa [freeAll, hq] using hfree
      · intro p
        rw [hiff p]
        by_cases hp : p = q
        · simp [hp]
        · simp [hp]

/-- A list with a dead block in it cannot be freed. -/
theorem freeAll_eq_none {p : β} : ∀ {ps : List β} {live : β → Bool}, p ∈ ps → live p = false →
    freeAll live ps = none
  | q :: ps, live, hmem, hdead => by
      by_cases hq : live q = true
      · have hne : p ≠ q := by
          intro h
          rw [← h, hdead] at hq
          cases hq
        have hmem' : p ∈ ps := (List.mem_cons.1 hmem).resolve_left hne
        have hdead' : Function.update live q false p = false := by
          rw [Function.update_of_ne hne, hdead]
        rw [freeAll, if_pos hq, freeAll_eq_none hmem' hdead']
      · rw [freeAll, if_neg hq]

section Exchange

variable {l : Ledger β} (hb : l.Balanced) {held ins frees back : List β}
include hb

theorem nodup_offered (hnd : ins.Nodup) (hoff : ∀ p ∈ ins, l.offered p = true) :
    (ins ++ l.held).Nodup := by
  have hheld : l.held.Nodup :=
    (List.nodup_append.1 (List.nodup_append.1 hb.one_place).1).1
  refine List.nodup_append.2 ⟨hnd, hheld, ?_⟩
  intro p hp q hq hpq
  have hoffp := hoff p hp
  simp [offered, hpq, hq] at hoffp

/-- An operation that conserves blocks keeps the books: it frees only live blocks, and afterwards
every accepted block is again in exactly one place. -/
theorem exchange_balanced (hnd : ins.Nodup) (hoff : ∀ p ∈ ins, l.offered p = true)
    (hperm : (frees ++ back ++ held).Perm (ins ++ l.held)) :
    ∃ l', l.exchange held ins frees back = some l' ∧ l'.held = held ∧ l'.Balanced := by
  have hin := nodup_offered hb hnd hoff
  have hout : (frees ++ back ++ held).Nodup := hperm.nodup_iff.2 hin
  have hlive : ∀ p ∈ frees ++ back ++ held, l.live p = true := by
    intro p hp
    rcases List.mem_append.1 (hperm.subset hp) with hp' | hp'
    · exact (Bool.and_eq_true _ _ ▸ hoff p hp').1
    · exact hb.held_live p hp'
  have hfreeNodup : frees.Nodup :=
    (List.nodup_append.1 (List.nodup_append.1 hout).1).1
  rcases freeAll_eq hfreeNodup (fun p hp => hlive p (by simp [hp])) with ⟨live', hfree, hiff⟩
  refine ⟨_, by rw [exchange, hfree]; rfl, rfl, ?_⟩
  -- the blocks outside this operation, in the order of the ledger
  have hrest : (l.freed ++ l.handed.filter (· ∉ ins)).Nodup := by
    have hold : (l.freed ++ l.handed).Nodup := by
      have := hb.one_place
      rw [List.append_assoc] at this
      exact (List.nodup_append.1 this).2.1
    exact hold.sublist (List.Sublist.append_left List.filter_sublist _)
  have hmove : (held ++ (l.freed ++ frees) ++ (back ++ l.handed.filter (· ∉ ins))).Perm
      ((ins ++ l.held) ++ (l.freed ++ l.handed.filter (· ∉ ins))) := by
    refine List.Perm.trans ?_ (hperm.append_right _)
    rw [List.perm_iff_count]
    intro p
    simp only [List.count_append]
    omega
  have hdisjoint : ∀ p ∈ ins ++ l.held, ∀ q ∈ l.freed ++ l.handed.filter (· ∉ ins), p ≠ q := by
    intro p hp q hq hpq
    subst hpq
    rcases List.mem_append.1 hp with hpi | hph
    · have hoffp := hoff p hpi
      rcases List.mem_append.1 hq with hqf | hqh
      · simp [offered, hb.freed_dead p hqf] at hoffp
      · have hnot := (List.mem_filter.1 hqh).2
        simp [hpi] at hnot
    · have hcross := hb.one_place
      rw [List.append_assoc] at hcross
      have hq' : p ∈ l.freed ++ l.handed := by
        rcases List.mem_append.1 hq with hqf | hqh
        · exact List.mem_append_left _ hqf
        · exact List.mem_append_right _ (List.mem_filter.1 hqh).1
      exact (List.nodup_append.1 hcross).2.2 p hph p hq' rfl
  refine ⟨?_, ?_, ?_, ?_⟩
  · exact hmove.nodup_iff.2 (List.nodup_append.2 ⟨hin, hrest, hdisjoint⟩)
  · intro p
    have hmem := hmove.mem_iff (a := p)
    refine Iff.trans ?_ hmem.symm
    have hacc := hb.accounted p
    by_cases hpi : p ∈ ins
    · simp [hpi]
    · simp [hpi, hacc]
  · intro p hp
    have hcross := (List.nodup_append.1 hout).2.2
    refine (hiff p).2 ⟨hlive p (List.mem_append_right _ hp), ?_⟩
    intro hpf
    exact hcross p (List.mem_append_left _ hpf) p hp rfl
  · intro p hp
    have hnot : ¬ live' p = true := by
      intro hl
      have hl' := (hiff p).1 hl
      rcases List.mem_append.1 hp with hpf | hpf
      · have hdead := hb.freed_dead p hpf
        simp [hdead] at hl'
      · exact hl'.2 hpf
    simpa using hnot

end Exchange

/-- With balanced books, a block is in exactly one place, once, if it was ever accepted, and
nowhere otherwise. -/
theorem Balanced.count_eq {l : Ledger β} (hb : l.Balanced) (p : β) :
    l.held.count p + l.freed.count p + l.handed.count p = if p ∈ l.accepted then 1 else 0 := by
  have hcount : (l.held ++ l.freed ++ l.handed).count p =
      l.held.count p + l.freed.count p + l.handed.count p := by
    rw [List.count_append, List.count_append]
  rw [← hcount]
  by_cases hp : p ∈ l.accepted
  · rw [if_pos hp]
    exact List.count_eq_one_of_mem hb.one_place ((hb.accounted p).1 hp)
  · rw [if_neg hp]
    exact List.count_eq_zero_of_not_mem fun hmem => hp ((hb.accounted p).2 hmem)

end Ledger
end Lib
end UtilsC
