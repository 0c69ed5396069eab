import UtilsC.Ipc.Client

/-!
# The deadline of a wait

`uc_ipc_client_wait_ack` adds the seconds and the rest of `wait_millisecond` to the two fields of
the current time, and nothing carries from the nanoseconds into the seconds.  A `tv_nsec` of a
whole second or more makes `pthread_cond_timedwait` fail at once, and the loop calls it again.

* `waitRound` is one call of `pthread_cond_timedwait` in the loop and the test behind it.
* `waitDeadline_iff` says for which times and waits the deadline is the one asked for.
* `waitRounds_spin`: with another deadline the rounds of the loop change nothing and have no end.
-/

namespace UtilsC
namespace Ipc

open Lib Hash

/-! ## The timespec -/

structure Timeval where
  tvSec : Int64
  tvUsec : Int64

structure Timespec where
  tvSec : Int64
  tvNsec : Int64

/-- The `outtime` of `uc_ipc_client_wait_ack`. -/
def waitAckOuttime (now : Timeval) (waitMillisecond : Int32) : Timespec :=
  { tvSec := now.tvSec + (waitMillisecond / 1000).toInt64
    tvNsec := now.tvUsec * 1000 + (waitMillisecond % 1000 * 1000 * 1000).toInt64 }

/-- The time in nanoseconds. -/
def Timeval.nanoseconds (t : Timeval) : Int :=
  t.tvSec.toInt * 1000000000 + t.tvUsec.toInt * 1000

def Timespec.nanoseconds (t : Timespec) : Int :=
  t.tvSec.toInt * 1000000000 + t.tvNsec.toInt

def Timespec.Valid (t : Timespec) : Prop :=
  0 ≤ t.tvNsec.toInt ∧ t.tvNsec.toInt < 1000000000

instance (t : Timespec) : Decidable t.Valid :=
  inferInstanceAs (Decidable (_ ∧ _))

section Outtime

variable {now : Timeval} {wait : Int32}

theorem bmod_32_eq_self {x : Int} (hlo : -2 ^ 31 ≤ x) (hhi : x < 2 ^ 31) : x.bmod (2 ^ 32) = x :=
  Int.bmod_eq_of_le (by omega) (by omega)

theorem bmod_64_eq_self {x : Int} (hlo : -2 ^ 63 ≤ x) (hhi : x < 2 ^ 63) : x.bmod (2 ^ 64) = x :=
  Int.bmod_eq_of_le (by omega) (by omega)

theorem restNsec_toInt (hwait : 0 < wait.toInt) :
    (wait % 1000 * 1000 * 1000).toInt = wait.toInt % 1000 * 1000000 := by
  have hlo : 0 ≤ wait.toInt % 1000 := Int.emod_nonneg _ (by decide)
  have hhi : wait.toInt % 1000 < 1000 := Int.emod_lt_of_pos _ (by decide)
  have hmod : (wait % 1000).toInt = wait.toInt % 1000 := by
    rw [Int32.toInt_mod]
    exact Int.tmod_eq_emod_of_nonneg (le_of_lt hwait)
  have h1000 : (1000 : Int32).toInt = 1000 := rfl
  -- at most 999 * 1000 * 1000, so both products stay in an `int`
  have hmilli : (wait % 1000 * 1000).toInt = wait.toInt % 1000 * 1000 := by
    rw [Int32.toInt_mul, hmod, h1000]
    exact bmod_32_eq_self (by omega) (by omega)
  rw [Int32.toInt_mul, hmilli, h1000, bmod_32_eq_self (by omega) (by omega)]
  omega

/-- Neither product nor the sum overflows. -/
theorem waitAckOuttime_tvNsec (husec : 0 ≤ now.tvUsec.toInt) (husec' : now.tvUsec.toInt < 1000000)
    (hwait : 0 < wait.toInt) :
    (waitAckOuttime now wait).tvNsec.toInt =
      now.tvUsec.toInt * 1000 + wait.toInt % 1000 * 1000000 := by
  have hlo : 0 ≤ wait.toInt % 1000 := Int.emod_nonneg _ (by decide)
  have hhi : wait.toInt % 1000 < 1000 := Int.emod_lt_of_pos _ (by decide)
  have h1000 : (1000 : Int64).toInt = 1000 := rfl
  have husecs : (now.tvUsec * 1000).toInt = now.tvUsec.toInt * 1000 := by
    rw [Int64.toInt_mul, h1000]
    exact bmod_64_eq_self (by omega) (by omega)
  rw [waitAckOuttime, Int64.toInt_add, husecs, Int32.toInt_toInt64, restNsec_toInt hwait]
  exact bmod_64_eq_self (by omega) (by omega)

theorem waitAckOuttime_tvSec (hwait : 0 < wait.toInt) :
    (waitAckOuttime now wait).tvSec.toInt =
      Int.bmod (now.tvSec.toInt + wait.toInt / 1000) (2 ^ 64) := by
  have hhi := wait.toInt_lt
  have hdiv : wait.toInt.tdiv (1000 : Int32).toInt = wait.toInt / 1000 :=
    Int.tdiv_eq_ediv_of_nonneg (le_of_lt hwait)
  simp only [waitAckOuttime, Int64.toInt_add, Int32.toInt_toInt64, Int32.toInt_div, hdiv]
  rw [bmod_32_eq_self (by omega) (by omega)]

end Outtime

/-! ## The loop -/

/-- `pthread_cond_timedwait`: it fails at once on an invalid time, and otherwise returns what the
waiting ends with. -/
def pthreadCondTimedwait (outtime : Timespec) (ended : WaitRet) : WaitRet :=
  if outtime.Valid then ended else .error

namespace Client

/-- Call `c` waits at most `wait` milliseconds, on the node of the id, which holds no reply. -/
structure Waiting (s : Client) (c : Nat) (call : ClientCall) (id : UInt64) (wait : Int32) :
    Prop where
  mem : s.calls[c]? = some call
  wait : call.waitMillisecond = wait
  asleep : call.pc = .asleep id (s.ackNode id)
  empty : s.ackHash.get id = some none

/-- One call of `pthread_cond_timedwait` and the test of the loop behind it, with nothing of
another thread in between. -/
def waitRound (c : Nat) (ret : WaitRet) : List ClientEvent := [.wake c ret, .resume c]

variable {s : Client} {c : Nat} {call : ClientCall} {id : UInt64} {wait : Int32}

theorem setPc_setPc (s : Client) (c : Nat) (pc pc' : CallPc) :
    (s.setPc c pc).setPc c pc' = s.setPc c pc' := by
  simp only [setPc, List.modify_modify_eq]
  rfl

theorem setPc_same (hcall : s.calls[c]? = some call) : s.setPc c call.pc = s := by
  have hcalls : (s.setPc c call.pc).calls = s.calls := by
    refine List.ext_getElem? fun c' => ?_
    rw [setPc_calls]
    by_cases hc : c = c'
    · subst hc
      simp [hcall]
    · simp [hc]
  cases s
  exact congrArg (fun calls => Client.mk _ _ _ calls _ _ _) hcalls

/-- The two events of a round are one round of `waitAckLoop`. -/
theorem Waiting.play_waitRound (hw : s.Waiting c call id wait) {ret : WaitRet} (hwait : wait ≠ 0) :
    machine.play s (waitRound c ret) =
      (s.setPc c (.woken id (s.ackNode id) ret)).waitAckLoop c call.kind id (s.ackNode id) ret := by
  let s₁ := s.setPc c (.woken id (s.ackNode id) ret)
  have hwoken : s₁.calls[c]? = some { call with pc := .woken id (s.ackNode id) ret } :=
    setPc_call_self hw.mem
  have henabled : machine.enabled s (.wake c ret) = true := by
    simp [machine, enabled, enabledCall, hw.mem, hw.asleep, hw.wait, hwait]
  have hexec : machine.exec s (.wake c ret) = some s₁ := by
    simp [machine, exec, execCall, hw.mem, hw.asleep, s₁]
  have henabled₁ : machine.enabled s₁ (.resume c) = true := by
    simp [machine, enabled, enabledCall, hwoken]
  have hexec₁ : machine.exec s₁ (.resume c) =
      s₁.waitAckLoop c call.kind id (s.ackNode id) ret := by
    simp [machine, exec, execCall, hwoken, s₁]
  have hlast : ∀ o : Option Client, (o.bind fun t => machine.play t []) = o := by
    intro o
    cases o <;> rfl
  simp only [waitRound, Machine.play, henabled, hexec, henabled₁, hexec₁, if_true,
    Option.bind_some]
  exact hlast _

/-- At the deadline the call fails. -/
theorem Waiting.round_timedOut (hw : s.Waiting c call id wait) (hwait : wait ≠ 0) :
    machine.play s (waitRound c .timedOut) = some (s.waitAckFail c call.kind id (-0x4f885afb)) := by
  rw [hw.play_waitRound hwait, waitAckLoop, if_pos rfl, waitAckFail_eq, waitAckFail_eq, setPc_setPc]

/-- After any other round the call waits again, as before. -/
theorem Waiting.round_again (hw : s.Waiting c call id wait) (hwait : wait ≠ 0) {ret : WaitRet}
    (hret : ret ≠ .timedOut) : machine.play s (waitRound c ret) = some s := by
  -- the node is found and still holds nothing, which sends the loop round
  have hempty : (s.setPc c (.woken id (s.ackNode id) ret)).ackHash.findVal id = some none := by
    rw [U64Table.findVal_eq_get, setPc_ackHash, hw.empty]
  rw [hw.play_waitRound hwait, waitAckLoop, if_neg hret, hempty]
  show some _ = some s
  rw [setPc_setPc, ← hw.asleep, setPc_same hw.mem]

/-- With an invalid deadline the loop goes round and round, and the client stays as it is. -/
theorem Waiting.rounds_spin (hw : s.Waiting c call id wait) (hwait : wait ≠ 0)
    {outtime : Timespec} (hbad : ¬ outtime.Valid) (ended : List WaitRet) :
    machine.Run s (ended.flatMap fun ret => waitRound c (pthreadCondTimedwait outtime ret)) s := by
  induction ended with
  | nil => exact .nil
  | cons ret ended ih =>
      have hret : pthreadCondTimedwait outtime ret = .error := if_neg hbad
      have hagain : (.error : WaitRet) ≠ .timedOut := by decide
      -- one round leads back to `s`, and the rest of the loop starts there again
      have hround := Machine.run_of_play (hw.round_again hwait hagain)
      rw [List.flatMap_cons, hret]
      exact hround.trans ih

end Client

/-! ## The deadline asked for -/

/-- The deadline is a time that `pthread_cond_timedwait` accepts and the one asked for; at the
deadline the loop ends, and no round of it fails at once. -/
structure WaitDeadline (now : Timeval) (wait : Int32) : Prop where
  valid : (waitAckOuttime now wait).Valid
  exact : (waitAckOuttime now wait).nanoseconds = now.nanoseconds + wait.toInt * 1000000
  timesOut : ∀ (s : Client) (c : Nat) (call : ClientCall) (id : UInt64),
    s.Waiting c call id wait →
    Client.machine.play s
        (Client.waitRound c (pthreadCondTimedwait (waitAckOuttime now wait) .timedOut)) =
      some (s.waitAckFail c call.kind id (-0x4f885afb))
  noSpin : ∀ ended : WaitRet, ended ≠ .error →
    pthreadCondTimedwait (waitAckOuttime now wait) ended ≠ .error

section Main

variable {now : Timeval} {wait : Int32}

theorem waitAckOuttime_valid_iff (husec : 0 ≤ now.tvUsec.toInt)
    (husec' : now.tvUsec.toInt < 1000000) (hwait : 0 < wait.toInt) :
    (waitAckOuttime now wait).Valid ↔
      now.tvUsec.toInt + wait.toInt % 1000 * 1000 < 1000000 := by
  rw [Timespec.Valid, waitAckOuttime_tvNsec husec husec' hwait]
  omega

theorem waitAckOuttime_exact_iff (husec : 0 ≤ now.tvUsec.toInt)
    (husec' : now.tvUsec.toInt < 1000000) (hwait : 0 < wait.toInt) :
    (waitAckOuttime now wait).nanoseconds = now.nanoseconds + wait.toInt * 1000000 ↔
      now.tvSec.toInt + wait.toInt / 1000 < 2 ^ 63 := by
  have hlo := now.tvSec.le_toInt
  have hhi := now.tvSec.toInt_lt
  have hbound := wait.toInt_lt
  -- the nanoseconds are exact, so only the sum of the seconds can be off, by 2^64
  rw [Timespec.nanoseconds, Timeval.nanoseconds, waitAckOuttime_tvNsec husec husec' hwait,
    waitAckOuttime_tvSec hwait, Int.bmod_def]
  omega

/-- The deadline is the one asked for exactly when the microseconds do not carry and the seconds
do not overflow. -/
theorem waitDeadline_iff (husec : 0 ≤ now.tvUsec.toInt) (husec' : now.tvUsec.toInt < 1000000)
    (hwait : 0 < wait.toInt) :
    WaitDeadline now wait ↔
      now.tvUsec.toInt + wait.toInt % 1000 * 1000 < 1000000 ∧
        now.tvSec.toInt + wait.toInt / 1000 < 2 ^ 63 := by
  rw [← waitAckOuttime_valid_iff husec husec' hwait, ← waitAckOuttime_exact_iff husec husec' hwait]
  refine ⟨fun hok => ⟨hok.valid, hok.exact⟩, fun ⟨hvalid, hexact⟩ => ⟨hvalid, hexact, ?_, ?_⟩⟩
  · intro s c call id hw
    -- a wait of 0 would be one without a deadline
    have hne : wait ≠ 0 := by
      rintro rfl
      exact absurd hwait (by decide)
    rw [pthreadCondTimedwait, if_pos hvalid]
    exact hw.round_timedOut hne
  · intro ended hended
    rwa [pthreadCondTimedwait, if_pos hvalid]

end Main

/-- 2001 milliseconds from 998 milliseconds after a second. -/
theorem waitDeadline_partial :
    WaitDeadline { tvSec := 1700000000, tvUsec := 998000 } 2001 :=
  (waitDeadline_iff (by decide) (by decide) (by decide)).2 ⟨by decide, by decide⟩

/-- One millisecond from the last microsecond of a second. -/
theorem waitDeadline_carry :
    ¬ ∀ (now : Timeval) (wait : Int32), 0 ≤ now.tvUsec.toInt → now.tvUsec.toInt < 1000000 →
      0 < wait.toInt → WaitDeadline now wait := by
  intro hall
  have hok := hall { tvSec := 1700000000, tvUsec := 999999 } 1 (by decide) (by decide) (by decide)
  exact absurd hok.valid (by decide)

end Ipc
end UtilsC
