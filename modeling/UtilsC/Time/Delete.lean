import UtilsC.Time.Periodic

/-!
# Runs of the wheel, and what a delete does to the other timers

`uc_timer_delete` unlinks its timer through the pointers the timer still holds.  For a timer that
is armed these are its neighbours.  For one that a tick unlinked after its last time they are the
neighbours of that moment, and since then these may have been freed, moved or given other
neighbours.

* `Run` is every order of additions, ticks and deletions.
* `NeighboursKept` says what the stale pointers must still be good for; `cleanDelete_iff` that this
  is exactly when the other timers are left alone.
-/

namespace UtilsC
namespace Time

open Lib ListHead RingFamily

variable {A F X : Type} [DecidableEq A]

/-! ## Runs -/

/-- From `mgr`, by any calls and `n` ticks.  A handle is live from the call that returned it to the
call that deletes it, and `malloc` hands out memory that is not live.  The deletions are those that
`ok` admits. -/
inductive Run (ok : UcTimerManager A F X → A → Prop) (mgr : UcTimerManager A F X) :
    Nat → UcTimerManager A F X → Prop
  | start : Run ok mgr 0 mgr
  | add {n : Nat} {mid mgr' : UcTimerManager A F X} {malloc hdl : Option A}
      {millisecond ttl : Nat} {cb : Option F} {arg : X} (hrun : Run ok mgr n mid)
      (hfresh : ∀ a, malloc = some a → mid.links.live (Loc.item a) = false)
      (hadd : ucTimerAddDo malloc millisecond ttl cb arg mid = some (mgr', hdl)) :
      Run ok mgr n mgr'
  | tick {n fuel : Nat} {mid mgr' : UcTimerManager A F X} (hrun : Run ok mgr n mid)
      (htick : ucTimerCheckTimeout fuel mid = some mgr') : Run ok mgr (n + 1) mgr'
  | delete {n : Nat} {mid mgr' : UcTimerManager A F X} {a : A} {ret : Int}
      (hrun : Run ok mgr n mid) (hlive : mid.links.live (Loc.item a) = true) (hok : ok mid a)
      (hdelete : ucTimerDeleteDo (some a) mid = some (mgr', ret)) : Run ok mgr n mgr'

/-! ## The lists survive every tick

For this neither the clock nor the intervals matter: whatever the loop body does to the visited
timer, the saved next entry stays in the list. -/

section Survive

variable {stage : Stage} {mgr mgr' : UcTimerManager A F X} {lists : Slot → List A}
  {timers : A → Timer F X}

theorem mem_edit_of_ne (hR : Represents mgr lists timers) (act : Act) {a b : A} {s : Slot}
    (slot : Option Slot) (hb : b ≠ a) (hmem : b ∈ lists s) : b ∈ act.edit lists a slot s := by
  cases act with
  | keep => exact hmem
  | cascade s' => exact (mem_relink hR.rings.nodup).2 (Or.inl ⟨hb, hmem⟩)
  | timeout => exact (mem_relink hR.rings.nodup).2 (Or.inl ⟨hb, hmem⟩)

omit [DecidableEq A] in
/-- A loop starts at the head or at an entry of the list. -/
theorem next_head_cases (hR : Represents mgr lists timers) (s : Slot) :
    mgr.links.next (Loc.head s) = Loc.head s ∨
      ∃ a ∈ lists s, mgr.links.next (Loc.head s) = Loc.item a := by
  rw [hR.rings.next_head_eq s]
  cases lists s with
  | nil => exact Or.inl rfl
  | cons a xs => exact Or.inr ⟨a, by simp, rfl⟩

/-- The entry fetched before the body runs is the head or still in the list behind it. -/
theorem next_item_cases (hR : Represents mgr lists timers) (act : Act) {a : A} {s : Slot}
    (slot : Option Slot) (ha : a ∈ lists s) :
    mgr.links.next (Loc.item a) = Loc.head s ∨
      ∃ b ∈ act.edit lists a slot s, mgr.links.next (Loc.item a) = Loc.item b := by
  rcases List.append_of_mem ha with ⟨xs, ys, hs⟩
  have hnd : (xs ++ a :: ys).Nodup := hs ▸ hR.rings.nodup s
  have hays : a ∉ ys := (List.nodup_cons.1 (List.nodup_append.1 hnd).2.1).1
  rw [hR.rings.next_item_eq hs]
  cases ys with
  | nil => exact Or.inl rfl
  | cons y ys =>
      have hya : y ≠ a := fun hya => hays (by simp [hya])
      exact Or.inr ⟨y, mem_edit_of_ne hR act slot hya (by simp [hs]), rfl⟩

theorem visit_survives (stage : Stage) (s : Slot) : ∀ (fuel : Nat) {mgr : UcTimerManager A F X}
    {lists : Slot → List A} {timers : A → Timer F X} {pos : Loc Slot A},
    Represents mgr lists timers → (pos = Loc.head s ∨ ∃ a ∈ lists s, pos = Loc.item a) →
      listForEachSafe UcTimerManager.links stage.body s fuel pos mgr = some mgr' →
      mgr'.links.live = mgr.links.live ∧ ∃ lists' timers', Represents mgr' lists' timers'
  | 0, _, _, _, _, _, _, hret => by simp [listForEachSafe] at hret
  | fuel + 1, mgr, lists, timers, pos, hR, hpos, hret => by
      rcases hpos with hhead | ⟨a, ha, hitem⟩
      · subst hhead
        have heq : mgr = mgr' := by simpa [listForEachSafe] using hret
        exact heq ▸ ⟨rfl, lists, timers, hR⟩
      · subst hitem
        have halive := hR.rings.live_item s a ha
        rcases body_spec stage hR ha with ⟨mgr₁, hbody, _, hR₁, hmoved⟩
        have hrest : listForEachSafe UcTimerManager.links stage.body s fuel
            (mgr.links.next (Loc.item a)) mgr₁ = some mgr' := by
          simpa [listForEachSafe, halive, hbody] using hret
        have hpos₁ := next_item_cases hR (stage.act mgr.idx (timers a).item.next)
          (stage.visit mgr.idx (timers a)).1.slot ha
        rcases visit_survives stage s fuel hR₁ hpos₁ hrest with ⟨hlive, hR'⟩
        exact ⟨hlive.trans hmoved.live, hR'⟩

theorem Stage.run_survives {fuel : Nat} (hR : Represents mgr lists timers)
    (hret : stage.run fuel mgr = some mgr') :
    mgr'.links.live = mgr.links.live ∧ ∃ lists' timers', Represents mgr' lists' timers' := by
  by_cases hdue : stage.due mgr.idx = true
  · rw [Stage.run, if_pos hdue] at hret
    let mgr₀ : UcTimerManager A F X := { mgr with idx := stage.advance mgr.idx }
    have hR₀ : Represents mgr₀ lists timers := ⟨hR.rings, hR.mem_iff, hR.item_eq⟩
    have hpos := next_head_cases hR₀ (stage.slot mgr₀.idx)
    have hloop := visit_survives stage (stage.slot mgr₀.idx) fuel hR₀ hpos hret
    exact hloop
  · rw [Stage.run, if_neg hdue] at hret
    cases hret
    exact ⟨rfl, lists, timers, hR⟩

theorem foldlM_survives {fuel : Nat} : ∀ {rest : List Stage} {mgr : UcTimerManager A F X}
    {lists : Slot → List A} {timers : A → Timer F X}, Represents mgr lists timers →
      rest.foldlM (fun mgr stage => stage.run fuel mgr) mgr = some mgr' →
      mgr'.links.live = mgr.links.live ∧ ∃ lists' timers', Represents mgr' lists' timers'
  | [], _, lists, timers, hR, hret => by
      cases hret
      exact ⟨rfl, lists, timers, hR⟩
  | stage :: rest, mgr, _, _, hR, hret => by
      rw [List.foldlM_cons] at hret
      rcases Option.bind_eq_some_iff.1 hret with ⟨mgr₁, hstage, hrest⟩
      rcases Stage.run_survives hR hstage with ⟨hlive₁, lists₁, timers₁, hR₁⟩
      rcases foldlM_survives hR₁ hrest with ⟨hlive', hR'⟩
      exact ⟨hlive'.trans hlive₁, hR'⟩

theorem ucTimerCheckTimeout_survives {fuel : Nat} (hR : Represents mgr lists timers)
    (hret : ucTimerCheckTimeout fuel mgr = some mgr') :
    mgr'.links.live = mgr.links.live ∧ ∃ lists' timers', Represents mgr' lists' timers' :=
  foldlM_survives hR hret

end Survive

/-! ## Deleting -/

/-- The deleted timer is armed, or the pointers it holds lead to live memory and writing through
them changes no list: either both neighbours are out of every list too, or they are still each
other's neighbours. -/
def NeighboursKept (mgr : UcTimerManager A F X) (lists : Slot → List A) (a : A) : Prop :=
  let p := mgr.links.prev (Loc.item a)
  let q := mgr.links.next (Loc.item a)
  (∃ s, a ∈ lists s) ∨
    (mgr.links.live p = true ∧ mgr.links.live q = true ∧
      ((¬ Linked lists p ∧ ¬ Linked lists q) ∨ mgr.links.Adj p q))

/-- The deletion returns 0, the lists are well formed and every other armed timer is in the list
it was in. -/
def CleanDelete (mgr : UcTimerManager A F X) (lists : Slot → List A) (a : A) : Prop :=
  ∃ mgr' lists', ucTimerDeleteDo (some a) mgr = some (mgr', 0) ∧
    RingFamily mgr'.links lists' ∧ ∀ s, ∀ b ∈ lists s, b ≠ a → b ∈ lists' s

section Delete

variable {mgr mgr' : UcTimerManager A F X} {lists : Slot → List A} {timers : A → Timer F X}
  {a : A}

theorem delete_armed (hF : RingFamily mgr.links lists) {s : Slot} (ha : a ∈ lists s) :
    ∃ links, ucTimerDeleteDo (some a) mgr = some ({ mgr with links := links }, 0) ∧
      links.live = Function.update mgr.links.live (Loc.item a) false ∧
      RingFamily links fun t => (lists t).erase a := by
  rcases del_spec mgr hF ha with ⟨links, hdel, hlive, hF'⟩
  refine ⟨links.free a, ?_, ?_, hF'.free hF.not_mem_erase⟩
  · simp [ucTimerDeleteDo, hdel]
  · rw [LinkHeap.free, hlive]

theorem delete_stale (hlive : mgr.links.live (Loc.item a) = true)
    (hp : mgr.links.live (mgr.links.prev (Loc.item a)) = true)
    (hq : mgr.links.live (mgr.links.next (Loc.item a)) = true) :
    ucTimerDeleteDo (some a) mgr = some ({ mgr with
      links := (mgr.links.unlink (mgr.links.prev (Loc.item a))
        (mgr.links.next (Loc.item a))).free a }, 0) := by
  simp [ucTimerDeleteDo, UcTimerManager.del, listDel, listDelBetween, hlive, hp, hq]

theorem delete_dead (hlive : mgr.links.live (Loc.item a) = true)
    (hpq : ¬ (mgr.links.live (mgr.links.prev (Loc.item a)) = true ∧
      mgr.links.live (mgr.links.next (Loc.item a)) = true)) :
    ucTimerDeleteDo (some a) mgr = none := by
  simp only [ucTimerDeleteDo, UcTimerManager.del, listDel, listDelBetween, if_pos hlive,
    if_neg hpq, Option.map_none]

/-- A deletion whose neighbours are kept removes the timer from its list, if it is in one, and
does nothing else to the lists. -/
theorem delete_kept (hF : RingFamily mgr.links lists) (hlive : mgr.links.live (Loc.item a) = true)
    (hkept : NeighboursKept mgr lists a) :
    ∃ links, ucTimerDeleteDo (some a) mgr = some ({ mgr with links := links }, 0) ∧
      links.live = Function.update mgr.links.live (Loc.item a) false ∧
      RingFamily links fun t => (lists t).erase a := by
  by_cases harmed : ∃ s, a ∈ lists s
  · rcases harmed with ⟨s, ha⟩
    exact delete_armed hF ha
  · rcases hkept with harmed' | ⟨hp, hq, hlinks⟩
    · exact absurd harmed' harmed
    · have hfree : ∀ t, a ∉ lists t := fun t ha => harmed ⟨t, ha⟩
      have hlists : (fun t => (lists t).erase a) = lists := by
        funext t
        exact List.erase_of_not_mem (hfree t)
      -- an unlinked timer: its stale pointers are written through all the same
      refine ⟨_, delete_stale hlive hp hq, rfl, ?_⟩
      rw [hlists]
      rcases hlinks with ⟨hpu, hqu⟩ | hadj
      · exact (hF.unlink_unlinked hpu hqu).free hfree
      · rw [unlink_adj hadj]
        exact hF.free hfree

theorem cleanDelete_iff (hF : RingFamily mgr.links lists)
    (hlive : mgr.links.live (Loc.item a) = true) :
    CleanDelete mgr lists a ↔ NeighboursKept mgr lists a := by
  constructor
  · intro hclean
    rcases hclean with ⟨mgr', lists', hdelete, hF', hothers⟩
    by_cases harmed : ∃ s, a ∈ lists s
    · exact Or.inl harmed
    · right
      by_cases hpq : mgr.links.live (mgr.links.prev (Loc.item a)) = true ∧
          mgr.links.live (mgr.links.next (Loc.item a)) = true
      · refine ⟨hpq.1, hpq.2, ?_⟩
        rw [delete_stale hlive hpq.1 hpq.2] at hdelete
        have hmgr' := (Prod.mk.inj (Option.some.inj hdelete)).1
        -- `list_del` writes both neighbours: it is harmless where neither is in a list
        by_cases hlinked : Linked lists (mgr.links.prev (Loc.item a)) ∨
            Linked lists (mgr.links.next (Loc.item a))
        · right
          have hsub : ∀ s, lists s ⊆ lists' s := by
            intro s b hb
            have hba : b ≠ a := fun hba => harmed ⟨s, hba ▸ hb⟩
            exact hothers s b hb hba
          refine hF.adj_of_unlink ?_ ?_ hF' hsub hlinked
          · rw [← hmgr']
            rfl
          · rw [← hmgr']
            rfl
        · exact Or.inl (not_or.1 hlinked)
      · rw [delete_dead hlive hpq] at hdelete
        cases hdelete
  · intro hkept
    rcases delete_kept hF hlive hkept with ⟨links, hdelete, _, hF'⟩
    refine ⟨_, _, hdelete, hF', ?_⟩
    intro s b hb hba
    exact (List.mem_erase_of_ne hba).2 hb

end Delete

/-! ## Runs whose deletions keep the neighbours -/

/-- `NeighboursKept` for the lists of the state. -/
def Kept (mgr : UcTimerManager A F X) (a : A) : Prop :=
  ∃ lists, RingFamily mgr.links lists ∧ NeighboursKept mgr lists a

section Runs

variable {mgr mgr' : UcTimerManager A F X} {lists : Slot → List A} {timers : A → Timer F X}

theorem Represents.erase (hR : Represents mgr lists timers) {links : LinkHeap Slot A} {a : A}
    (hF : RingFamily links fun t => (lists t).erase a) :
    Represents { mgr with links := links } (fun t => (lists t).erase a)
      (Function.update timers a { timers a with slot := none }) := by
  refine ⟨hF, ?_, ?_⟩
  · intro s b
    by_cases hb : b = a
    · subst hb
      simp [(hR.rings.nodup s).not_mem_erase]
    · rw [Function.update_of_ne hb, List.mem_erase_of_ne hb]
      exact hR.mem_iff s b
  · intro b
    by_cases hb : b = a
    · subst hb
      simpa using hR.item_eq b
    · simpa [Function.update_of_ne hb] using hR.item_eq b

/-- A deletion that keeps the neighbours takes its timer out and does nothing else. -/
theorem Represents.delete (hR : Represents mgr lists timers) {a : A} {ret : Int}
    (hlive : mgr.links.live (Loc.item a) = true) (hok : Kept mgr a)
    (hdelete : ucTimerDeleteDo (some a) mgr = some (mgr', ret)) :
    Represents mgr' (fun t => (lists t).erase a)
        (Function.update timers a { timers a with slot := none }) ∧
      mgr'.idx = mgr.idx ∧ mgr'.tasks = mgr.tasks ∧
      mgr'.links.live = Function.update mgr.links.live (Loc.item a) false := by
  rcases hok with ⟨lists₂, hF₂, hkept⟩
  -- the lists a state stands for are unique
  have hlists : lists₂ = lists := hF₂.unique hR.rings
  subst hlists
  rcases delete_kept hR.rings hlive hkept with ⟨links, hdelete₂, hlive₂, hF⟩
  rw [hdelete₂] at hdelete
  cases hdelete
  exact ⟨hR.erase hF, rfl, rfl, hlive₂⟩

theorem Run.represents (hR : Represents mgr lists timers) {n : Nat} (hrun : Run Kept mgr n mgr') :
    ∃ lists' timers', Represents mgr' lists' timers' := by
  induction hrun with
  | start => exact ⟨lists, timers, hR⟩
  | @add n mid mgr' malloc hdl millisecond ttl cb arg _ hfresh hadd ih =>
      rcases ih with ⟨lists₁, timers₁, hR₁⟩
      rcases ucTimerAddDo_step hR₁ hfresh hadd with rfl | ⟨a, it, lists₂, _, _, _, _, hR₂, _⟩
      · exact ⟨lists₁, timers₁, hR₁⟩
      · exact ⟨lists₂, _, hR₂⟩
  | tick _ htick ih =>
      rcases ih with ⟨lists₁, timers₁, hR₁⟩
      exact (ucTimerCheckTimeout_survives hR₁ htick).2
  | @delete n mid mgr' a ret _ hlive hok hdelete ih =>
      rcases ih with ⟨lists₁, timers₁, hR₁⟩
      exact ⟨_, _, (hR₁.delete hlive hok hdelete).1⟩

/-- In every run whose deletions keep the neighbours the lists are well formed in every state, and
for the next deletion the same condition decides whether it removes its own timer only. -/
theorem ucTimerDelete_frame (mem : A → UcTimerItem F X) {n : Nat}
    (hrun : Run Kept (emptyManager mem) n mgr) :
    ∃ lists, RingFamily mgr.links lists ∧ ∀ a, mgr.links.live (Loc.item a) = true →
      (CleanDelete mgr lists a ↔ NeighboursKept mgr lists a) := by
  rcases hrun.represents (emptyManager_represents mem) with ⟨lists, timers, hR⟩
  exact ⟨lists, hR.rings, fun a hlive => cleanDelete_iff hR.rings hlive⟩

end Runs

/-! ## Two timers that expire together

The first leaves its list while the second is still in it and keeps a pointer to it; the second is
the last of the list and keeps pointers to the head. -/

/-- The state after both were added with one millisecond to go, once, and the tick that fires
them. -/
def expiredPair : Option (UcTimerManager Nat Unit Unit) :=
  (ucTimerAddDo (some 0) 1 1 (some ()) () (emptyManager fun _ => blankItem)).bind fun r =>
    (ucTimerAddDo (some 1) 1 1 (some ()) () r.1).bind fun r =>
      ucTimerCheckTimeout 3 r.1

theorem run_expiredPair (ok : UcTimerManager Nat Unit Unit → Nat → Prop) :
    ∃ mgr, expiredPair = some mgr ∧ Run ok (emptyManager fun _ => blankItem) 1 mgr := by
  have hsome : expiredPair.isSome = true := by decide
  rcases Option.isSome_iff_exists.1 hsome with ⟨mgr, hmgr⟩
  have hruns := hmgr
  simp only [expiredPair, Option.bind_eq_some_iff] at hruns
  rcases hruns with ⟨⟨mgr₁, hdl₁⟩, hadd₁, ⟨mgr₂, hdl₂⟩, hadd₂, htick⟩
  have hfresh : mgr₁.links.live (Loc.item 1) = false := by
    have hR := emptyManager_represents fun _ : Nat => blankItem
    have hmax : 1 < timerIntervalMax := by decide
    rcases ucTimerAddDo_spec (a := 0) hR rfl Nat.one_pos hmax 1 () () with
      ⟨mgr', lists', hadd', _, _, _, hlive⟩
    rw [hadd'] at hadd₁
    cases hadd₁
    rw [hlive]
    rfl
  have hrun₁ : Run ok (emptyManager fun _ => blankItem) 0 mgr₁ :=
    .add .start (fun a ha => by cases ha; rfl) hadd₁
  have hrun₂ : Run ok (emptyManager fun _ => blankItem) 0 mgr₂ :=
    .add hrun₁ (fun a ha => by cases ha; exact hfresh) hadd₂
  exact ⟨mgr, hmgr, .tick hrun₂ htick⟩

theorem expiredPair_links {mgr : UcTimerManager Nat Unit Unit} (hmgr : expiredPair = some mgr) :
    mgr.links.live (Loc.item 0) = true ∧ mgr.links.next (Loc.item 0) = Loc.item 1 ∧
      mgr.links.prev (Loc.item 0) = Loc.head (Slot.ms 1) ∧
      mgr.links.next (Loc.head (Slot.ms 1)) = Loc.head (Slot.ms 1) := by
  have hlive : (expiredPair.map fun mgr => mgr.links.live (Loc.item 0)) = some true := by decide
  have hnext : (expiredPair.map fun mgr => mgr.links.next (Loc.item 0)) =
      some (Loc.item 1) := by decide
  have hprev : (expiredPair.map fun mgr => mgr.links.prev (Loc.item 0)) =
      some (Loc.head (Slot.ms 1)) := by decide +kernel
  have hhead : (expiredPair.map fun mgr => mgr.links.next (Loc.head (Slot.ms 1))) =
      some (Loc.head (Slot.ms 1)) := by decide +kernel
  rw [hmgr] at hlive hnext hprev hhead
  exact ⟨Option.some.inj hlive, Option.some.inj hnext, Option.some.inj hprev,
    Option.some.inj hhead⟩

/-- The frame law at that state. -/
theorem ucTimerDelete_frame_expiredPair :
    ∃ mgr lists, expiredPair = some mgr ∧ RingFamily mgr.links lists ∧
      (CleanDelete mgr lists 0 ↔ NeighboursKept mgr lists 0) := by
  rcases run_expiredPair Kept with ⟨mgr, hmgr, hrun⟩
  rcases ucTimerDelete_frame (fun _ => blankItem) hrun with ⟨lists, hF, hframe⟩
  exact ⟨mgr, lists, hmgr, hF, hframe 0 (expiredPair_links hmgr).1⟩

/-- Deleting the first of them writes the second back behind the head. -/
theorem ucTimerDelete_not_clean :
    ¬ ∀ (mem : Nat → UcTimerItem Unit Unit) (n : Nat) (mgr : UcTimerManager Nat Unit Unit)
      (lists : Slot → List Nat) (a : Nat), Run (fun _ _ => True) (emptyManager mem) n mgr →
      RingFamily mgr.links lists → mgr.links.live (Loc.item a) = true →
      CleanDelete mgr lists a := by
  intro hall
  rcases run_expiredPair Kept with ⟨mgr, hmgr, hrun⟩
  rcases run_expiredPair fun _ _ => True with ⟨mgr', hmgr', hrun'⟩
  have heq : mgr' = mgr := Option.some.inj (hmgr'.symm.trans hmgr)
  subst heq
  rcases hrun.represents (emptyManager_represents _) with ⟨lists, timers, hR⟩
  rcases expiredPair_links hmgr with ⟨hlive, hnext, hprev, hhead⟩
  have hclean := hall _ _ _ lists 0 hrun' hR.rings hlive
  -- unlinked, but its predecessor is the head of a list that does not point to its successor
  rcases (cleanDelete_iff hR.rings hlive).1 hclean with ⟨s, harmed⟩ | ⟨_, _, hlinks⟩
  · have hadj := (hR.rings.adj_item harmed).1
    rw [hprev, hhead] at hadj
    cases hadj
  · rw [hprev, hnext] at hlinks
    rcases hlinks with ⟨hhead', _⟩ | hadj
    · exact hhead' True.intro
    · have hback := hadj.1
      rw [hhead] at hback
      cases hback

end Time
end UtilsC
