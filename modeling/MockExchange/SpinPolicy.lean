import Mathlib.Data.UInt

/-!
# Spin policies

Whoever waits on a queue calls `execute` of a policy between two looks at it.
`HybridPolicy` means to pause first, then to yield and then to sleep, but it
counts in one static variable for all callers. A call that pauses counts once,
any other call twice, and after 2^64 the variable starts over. What a call does
is therefore a matter of how many calls were made before, by anybody: the
pattern has a period, and somebody who starts to wait late in it sleeps at once.
-/

namespace MockExchange

/-- What `execute` does with the thread. -/
inductive SpinAction where
  | pause
  | yield
  | sleep
deriving DecidableEq, Repr

def BusyWaitPolicy.execute : SpinAction := .pause

def YieldPolicy.execute : SpinAction := .yield

def SleepPolicy.execute : SpinAction := .sleep

namespace HybridPolicy

/-- `HybridPolicy::execute`, with the value it leaves in `spins`. The second
comparison increments what the first one incremented. -/
def execute (spins : UInt64) : SpinAction × UInt64 :=
  if spins < 100 then (BusyWaitPolicy.execute, spins + 1)
  else if spins + 1 < 1000 then (YieldPolicy.execute, spins + 1 + 1)
  else (SleepPolicy.execute, spins + 1 + 1)

/-- The first value of `spins`. -/
def initial : UInt64 := 1

/-- What each of the callers is made to do, one call after the other. -/
def executeAll {κ : Type*} (spins : UInt64) : List κ → List (κ × SpinAction)
  | [] => []
  | caller :: callers => (caller, (execute spins).1) :: executeAll (execute spins).2 callers

/-- The number of calls that take `spins` around once. -/
def period : Nat := 2 ^ 63 + 50

/-- What call `k` of a period does. -/
def actionAt (k : Nat) : SpinAction :=
  if k < 100 then .pause else if k < 550 then .yield else .sleep

/-- What `spins` is before call `k` of a period. -/
def spinsAt (k : Nat) : Nat := if k < 100 then k else 2 * k - 100

section

variable {κ : Type*} {spins : UInt64} {k n : Nat} {callers : List κ} {caller : κ}

theorem execute_pause (h : spins.toNat < 100) : execute spins = (.pause, spins + 1) :=
  if_pos (UInt64.lt_iff_toNat_lt.mpr h)

theorem execute_yield (h : 100 ≤ spins.toNat) (h' : (spins + 1).toNat < 1000) :
    execute spins = (.yield, spins + 1 + 1) := by
  have hfirst : ¬ spins < 100 := UInt64.not_lt.mpr (UInt64.le_iff_toNat_le.mpr h)
  rw [execute, if_neg hfirst]
  exact if_pos (UInt64.lt_iff_toNat_lt.mpr h')

theorem execute_sleep (h : 100 ≤ spins.toNat) (h' : 1000 ≤ (spins + 1).toNat) :
    execute spins = (.sleep, spins + 1 + 1) := by
  have hfirst : ¬ spins < 100 := UInt64.not_lt.mpr (UInt64.le_iff_toNat_le.mpr h)
  have hsecond : ¬ spins + 1 < 1000 := UInt64.not_lt.mpr (UInt64.le_iff_toNat_le.mpr h')
  rw [execute, if_neg hfirst, if_neg hsecond]
  rfl

theorem toNat_succ (spins : UInt64) (h : spins.toNat + 1 < 2 ^ 64) :
    (spins + 1).toNat = spins.toNat + 1 := by
  rw [UInt64.toNat_add]
  exact Nat.mod_eq_of_lt h

theorem toNat_succ_succ (spins : UInt64) :
    (spins + 1 + 1).toNat = (spins.toNat + 2) % 2 ^ 64 := by
  rw [UInt64.toNat_add, UInt64.toNat_add]
  change ((spins.toNat + 1) % 2 ^ 64 + 1) % 2 ^ 64 = _
  rw [Nat.mod_add_mod]

/-- **One call.** -/
theorem execute_of_spinsAt (hk : k < period) (hspins : spins.toNat = spinsAt k) :
    (execute spins).1 = actionAt k ∧ (execute spins).2.toNat = spinsAt ((k + 1) % period) := by
  have hperiod : period = 2 ^ 63 + 50 := rfl
  rcases Nat.lt_or_ge k 100 with hpause | hlater
  · rw [spinsAt, if_pos hpause] at hspins
    rw [execute_pause (by omega), actionAt, if_pos hpause, Nat.mod_eq_of_lt (by omega)]
    refine ⟨rfl, ?_⟩
    rw [toNat_succ spins (by omega), hspins, spinsAt]
    split
    · rfl
    · omega
  · have hspins : spins.toNat = 2 * k - 100 := by rw [hspins, spinsAt, if_neg (by omega)]
    have hsucc := toNat_succ spins (by omega)
    have hnext : (spins + 1 + 1).toNat = spinsAt ((k + 1) % period) := by
      rw [toNat_succ_succ, hspins]
      rcases Nat.lt_or_ge (k + 1) period with hlt | hlast
      · rw [Nat.mod_eq_of_lt hlt, spinsAt, if_neg (by omega), Nat.mod_eq_of_lt (by omega)]
        omega
      · have heq : k + 1 = period := by omega
        rw [heq, Nat.mod_self, spinsAt, if_pos (by decide)]
        omega
    rw [actionAt, if_neg (by omega)]
    rcases Nat.lt_or_ge k 550 with hyield | hsleep
    · rw [execute_yield (by omega) (by omega), if_pos hyield]
      exact ⟨rfl, hnext⟩
    · rw [execute_sleep (by omega) (by omega), if_neg (by omega)]
      exact ⟨rfl, hnext⟩

/-- The pattern over all calls, whoever makes them. -/
theorem executeAll_of_spinsAt (hk : k < period) (hspins : spins.toNat = spinsAt k)
    (hn : callers[n]? = some caller) :
    (executeAll spins callers)[n]? = some (caller, actionAt ((k + n) % period)) := by
  induction callers generalizing spins k n with
  | nil => simp at hn
  | cons first callers ih =>
    obtain ⟨haction, hnext⟩ := execute_of_spinsAt hk hspins
    cases n with
    | zero =>
      obtain rfl := Option.some.inj hn
      rw [Nat.add_zero, Nat.mod_eq_of_lt hk, ← haction]
      rfl
    | succ n =>
      have hrest := ih (Nat.mod_lt _ (by decide)) hnext (by simpa using hn)
      rw [Nat.mod_add_mod, Nat.add_assoc, Nat.add_comm 1 n] at hrest
      simpa [executeAll] using hrest

end

/-- **What a call does is a matter of how many were made before it.** Of all
calls together, whoever makes them, the first 99 pause, the next 450 yield and
all others sleep, until `spins` has wrapped; then every 2^63 + 50 calls begin
with 100 that pause and 450 that yield. -/
theorem hybrid_policy_calls {κ : Type*} (callers : List κ) (n : Nat) (caller : κ)
    (hn : callers[n]? = some caller) :
    (executeAll initial callers)[n]? = some (caller,
      if (n + 1) % (2 ^ 63 + 50) < 100 then .pause
      else if (n + 1) % (2 ^ 63 + 50) < 550 then .yield else .sleep) := by
  have hinitial : initial.toNat = spinsAt 1 := rfl
  have hcall := executeAll_of_spinsAt (by decide) hinitial hn
  rw [Nat.add_comm 1 n] at hcall
  exact hcall

/-- The third call of one waiter pauses; a waiter that comes after 549 calls of
others sleeps with its first. -/
theorem hybrid_policy_calls_late :
    (executeAll initial ["a", "a", "a"])[2]? = some ("a", .pause) ∧
    (executeAll initial (List.replicate 549 "a" ++ ["b"]))[549]? = some ("b", .sleep) :=
  ⟨hybrid_policy_calls _ 2 "a" rfl, hybrid_policy_calls _ 549 "b" (by decide +kernel)⟩

end HybridPolicy

end MockExchange
