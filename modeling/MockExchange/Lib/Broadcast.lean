import MockExchange.Lib.Traces
import MockExchange.Lib.ListUpdate
import Mathlib.Data.List.Infix
import Mathlib.Data.List.Perm.Subperm

/-!
# A broadcast log

What a queue with many writers and many readers is for: one list of entries, in
the order in which their places were taken, and subscribers that walk along it.
A place is taken before its message is there; the message is published later, in
any order, or the place is dropped. A subscriber starts at the end of the list,
is delivered every published entry from there on, in the order of the list, and
waits at an entry that is still pending.
-/

namespace Broadcast

open Transition ListUpdate

variable {α : Type*}

/-- A place in the list. A place that was taken for no message is `none`. -/
inductive Entry (α : Type*) where
  | pending (x : Option α)
  | published (x : α)
  | dropped (x : Option α)

/-- The message the place was taken for. -/
def Entry.claimed : Entry α → Option α
  | .pending x | .dropped x => x
  | .published x => some x

/-- The message a subscriber finds there. -/
def Entry.message : Entry α → Option α
  | .published x => some x
  | _ => none

structure Subscriber (α : Type*) where
  joined : Nat
  cursor : Nat
  active : Bool
  delivered : List α

@[ext] structure Log (α : Type*) where
  entries : List (Entry α)
  subscribers : List (Subscriber α)

def Log.empty : Log α := ⟨[], []⟩

inductive Action (α : Type*) where
  | subscribe
  | append (x : Option α)
  | publish (i : Nat)
  | drop (i : Nat)
  | deliver (r : Nat)
  | skip (r : Nat)
  | unsubscribe (r : Nat)

inductive Event (α : Type*) where
  | subscribed
  | claimed (x : α)
  | published (x : α)
  | delivered (r : Nat) (x : α)
  | unsubscribed (r : Nat)
deriving DecidableEq

namespace Log

def setEntry (l : Log α) (i : Nat) (e : Entry α) : Log α :=
  { l with entries := l.entries.set i e }

def setSubscriber (l : Log α) (r : Nat) (sub : Subscriber α) : Log α :=
  { l with subscribers := l.subscribers.set r sub }

/-- The entry at the cursor of an active subscriber. -/
def next (l : Log α) (sub : Subscriber α) : Option (Entry α) :=
  if sub.active then l.entries[sub.cursor]? else none

end Log

/-- One step of the log, or `none` where it is not possible. -/
def step (l : Log α) : Action α → Option (Log α)
  | .subscribe => some { l with
      subscribers := l.subscribers ++ [⟨l.entries.length, l.entries.length, true, []⟩] }
  | .append x => some { l with entries := l.entries ++ [.pending x] }
  | .publish i => match l.entries[i]? with
    | some (.pending (some x)) => some (l.setEntry i (.published x))
    | _ => none
  | .drop i => match l.entries[i]? with
    | some (.pending x) => some (l.setEntry i (.dropped x))
    | _ => none
  | .deliver r => l.subscribers[r]?.bind fun sub => match l.next sub with
    | some (.published x) => some (l.setSubscriber r { sub with
        cursor := sub.cursor + 1, delivered := sub.delivered ++ [x] })
    | _ => none
  | .skip r => l.subscribers[r]?.bind fun sub => match l.next sub with
    | some (.dropped _) => some (l.setSubscriber r { sub with cursor := sub.cursor + 1 })
    | _ => none
  | .unsubscribe r => l.subscribers[r]?.bind fun sub =>
    if sub.active then some (l.setSubscriber r { sub with active := false }) else none

/-- What the steps show. -/
def emit (l : Log α) : Action α → List (Event α)
  | .subscribe => [.subscribed]
  | .append x => x.toList.map .claimed
  | .publish i => match l.entries[i]? with
    | some (.pending (some x)) => [.published x]
    | _ => []
  | .drop _ => []
  | .deliver r => match l.subscribers[r]?.bind l.next with
    | some (.published x) => [.delivered r x]
    | _ => []
  | .skip _ => []
  | .unsubscribe r => [.unsubscribed r]

/-- The runs of the log. -/
abbrev Shows (events : List (Event α)) (l : Log α) : Prop :=
  Emits step (fun _ _ => True) emit Log.empty events l

/-! ### Readings of a list of events -/

def claims (events : List (Event α)) : List α :=
  events.filterMap fun
    | .claimed x => some x
    | _ => none

def publications (events : List (Event α)) : List α :=
  events.filterMap fun
    | .published x => some x
    | _ => none

def deliveriesTo (r : Nat) (events : List (Event α)) : List α :=
  events.filterMap fun
    | .delivered r' x => if r' = r then some x else none
    | _ => none

section

variable {events : List (Event α)} {l l' : Log α} {sub : Subscriber α} {e e' : Entry α} {i r : Nat}

theorem Entry.message_sublist (entries : List (Entry α)) :
    (entries.filterMap Entry.message).Sublist (entries.filterMap Entry.claimed) := by
  induction entries with
  | nil => exact List.Sublist.slnil
  | cons e entries ih =>
    cases e with
    | published x => exact ih.cons_cons x
    | pending x =>
      cases x with
      | none => exact ih
      | some x => exact ih.cons x
    | dropped x =>
      cases x with
      | none => exact ih
      | some x => exact ih.cons x

/-- The messages between a subscriber's start and its cursor. -/
def Log.window (l : Log α) (sub : Subscriber α) : List α :=
  ((l.entries.take sub.cursor).drop sub.joined).filterMap Entry.message

theorem Log.window_sublist (l : Log α) (sub : Subscriber α) :
    (l.window sub).Sublist (l.entries.filterMap Entry.message) :=
  ((List.drop_sublist _ _).trans (List.take_sublist _ _)).filterMap _

/-- What holds of a subscriber: it was delivered its window, and it does not walk
past a pending entry. -/
structure Log.Served (l : Log α) (sub : Subscriber α) : Prop where
  joined_le : sub.joined ≤ sub.cursor
  cursor_le : sub.cursor ≤ l.entries.length
  delivered : sub.delivered = l.window sub
  passed : ∀ i x, sub.joined ≤ i → i < sub.cursor → l.entries[i]? ≠ some (.pending x)

/-- The log is what the events say. -/
structure Log.Explains (l : Log α) (events : List (Event α)) : Prop where
  claims : claims events = l.entries.filterMap Entry.claimed
  publications : (publications events).Perm (l.entries.filterMap Entry.message)
  deliveries : ∀ r, deliveriesTo r events = ((l.subscribers[r]?).map Subscriber.delivered).getD []
  served : ∀ sub ∈ l.subscribers, l.Served sub

theorem emits_step {a : Action α} (h : step l a = some l') :
    Emits step (fun _ _ => True) emit l (emit l a) l' :=
  .one trivial h

/-! ### One entry changes -/

theorem filterMap_set_of_eq {β γ : Type*} (f : β → Option γ) {xs : List β} {x y : β}
    (h : xs[i]? = some x) (heq : f y = f x) : (xs.set i y).filterMap f = xs.filterMap f := by
  induction xs generalizing i with
  | nil => simp at h
  | cons z xs ih =>
    cases i with
    | zero =>
      simp only [List.getElem?_cons_zero, Option.some.injEq] at h
      subst h
      simp only [List.set_cons_zero, List.filterMap_cons, heq]
    | succ i => simp only [List.set_cons_succ, List.filterMap_cons, ih (by simpa using h)]

theorem filterMap_set_of_some {β γ : Type*} (f : β → Option γ) {xs : List β} {x y : β} {c : γ}
    (h : xs[i]? = some x) (hx : f x = none) (hy : f y = some c) :
    ((xs.set i y).filterMap f).Perm (xs.filterMap f ++ [c]) := by
  induction xs generalizing i with
  | nil => simp at h
  | cons z xs ih =>
    cases i with
    | zero =>
      simp only [List.getElem?_cons_zero, Option.some.injEq] at h
      subst h
      simp only [List.set_cons_zero, List.filterMap_cons, hx, hy]
      exact (List.perm_append_singleton c _).symm
    | succ i =>
      have hrest := ih (i := i) (by simpa using h)
      simp only [List.set_cons_succ, List.filterMap_cons]
      cases f z with
      | none => exact hrest
      | some d => exact hrest.cons d

theorem Log.Served.setEntry {x : Option α} (h : l.Served sub)
    (hpending : l.entries[i]? = some (.pending x)) : (l.setEntry i e').Served sub := by
  have hout : i < sub.joined ∨ sub.cursor ≤ i := by
    by_contra hin
    exact h.passed i x (by omega) (by omega) hpending
  have hwindow : (l.setEntry i e').window sub = l.window sub := by
    simp only [window, Log.setEntry]
    rcases hout with hlt | hge
    · rw [List.take_set, List.drop_set_of_lt hlt]
    · rw [List.take_set_of_le hge]
  refine ⟨h.joined_le, by simpa [Log.setEntry] using h.cursor_le, by rw [hwindow, h.delivered], ?_⟩
  intro j y hlo hhi
  rw [Log.setEntry, List.getElem?_set_ne (by omega)]
  exact h.passed j y hlo hhi

theorem Log.Served.append (h : l.Served sub) (e : Entry α) :
    ({ l with entries := l.entries ++ [e] } : Log α).Served sub := by
  have hle := h.cursor_le
  refine ⟨h.joined_le, ?_, ?_, ?_⟩
  · rw [List.length_append]
    omega
  · rw [h.delivered, window, window, List.take_append_of_le_length hle]
  · intro j y hlo hhi
    rw [List.getElem?_append_left (by omega)]
    exact h.passed j y hlo hhi

/-- A subscriber walks over an entry that is not pending. -/
theorem Log.Served.advance (h : l.Served sub) (hnext : l.entries[sub.cursor]? = some e)
    (hpassed : ∀ x, e ≠ .pending x) :
    l.Served { sub with
      cursor := sub.cursor + 1, delivered := sub.delivered ++ e.message.toList } := by
  have hle := h.joined_le
  have hlt := lt_of_getElem? hnext
  refine ⟨Nat.le_succ_of_le hle, hlt, ?_, ?_⟩
  · simp only [window]
    rw [List.take_add_one, hnext, h.delivered, window, Option.toList_some,
      List.drop_append_of_le_length (by rw [List.length_take]; omega), List.filterMap_append]
    congr 1
  · intro j y hlo hhi
    rcases Nat.lt_succ_iff_lt_or_eq.mp hhi with hlt' | rfl
    · exact h.passed j y hlo hlt'
    · rw [hnext]
      simpa using hpassed y

theorem Log.next_eq_some : l.next sub = some e ↔
    sub.active = true ∧ l.entries[sub.cursor]? = some e := by
  unfold next
  split <;> simp_all

theorem deliveriesTo_append (r : Nat) (events events' : List (Event α)) :
    deliveriesTo r (events ++ events') = deliveriesTo r events ++ deliveriesTo r events' :=
  List.filterMap_append

theorem claims_append (events events' : List (Event α)) :
    claims (events ++ events') = claims events ++ claims events' := List.filterMap_append

theorem publications_append (events events' : List (Event α)) :
    publications (events ++ events') = publications events ++ publications events' :=
  List.filterMap_append

/-! ### One step -/

/-- A step that moves one subscriber only. -/
theorem Log.Explains.setSubscriber (h : l.Explains events) (hsub : l.subscribers[r]? = some sub)
    {sub' : Subscriber α} {shown : List (Event α)} (hserved : l.Served sub')
    (hclaims : Broadcast.claims shown = []) (hpublications : Broadcast.publications shown = [])
    (hdelivered : sub'.delivered = sub.delivered ++ deliveriesTo r shown)
    (hothers : ∀ r' ≠ r, deliveriesTo r' shown = []) :
    (l.setSubscriber r sub').Explains (events ++ shown) := by
  refine ⟨?_, ?_, ?_, ?_⟩
  · rw [claims_append, hclaims, List.append_nil]
    exact h.claims
  · rw [publications_append, hpublications, List.append_nil]
    exact h.publications
  · intro r'
    rw [deliveriesTo_append, h.deliveries, Log.setSubscriber]
    by_cases hr : r' = r
    · subst hr
      rw [List.getElem?_set_self (lt_of_getElem? hsub), hsub]
      exact hdelivered.symm
    · rw [List.getElem?_set_ne (Ne.symm hr), hothers r' hr, List.append_nil]
  · have hkept : ∀ s, l.Served s → (l.setSubscriber r sub').Served s :=
      fun s hs => ⟨hs.joined_le, hs.cursor_le, hs.delivered, hs.passed⟩
    exact forall_mem_set (fun s hs => hkept s (h.served s hs)) (hkept sub' hserved)

/-- A step that settles one entry only. -/
theorem Log.Explains.setEntry {x : Option α} (h : l.Explains events)
    (hpending : l.entries[i]? = some (.pending x)) (hclaimed : e'.claimed = x) :
    (l.setEntry i e').Explains
      (events ++ (e'.message.toList.map Event.published)) := by
  refine ⟨?_, ?_, ?_, fun sub hsub => (h.served sub hsub).setEntry hpending⟩
  · have hnone : Broadcast.claims (e'.message.toList.map Event.published) = [] := by
      cases e'.message <;> rfl
    rw [claims_append, hnone, List.append_nil, h.claims, Log.setEntry,
      filterMap_set_of_eq _ hpending hclaimed]
  · rw [publications_append, Log.setEntry]
    cases hmessage : e'.message with
    | none =>
      rw [filterMap_set_of_eq _ hpending hmessage]
      simpa [Broadcast.publications] using h.publications
    | some c =>
      refine (h.publications.append_right _).trans ?_
      exact (filterMap_set_of_some _ hpending rfl hmessage).symm
  · intro r
    have hnone : deliveriesTo r (e'.message.toList.map Event.published) = [] := by
      cases e'.message <;> rfl
    rw [deliveriesTo_append, hnone, List.append_nil, h.deliveries]
    rfl

theorem Log.Explains.step {a : Action α} (h : l.Explains events)
    (hstep : Broadcast.step l a = some l') : l'.Explains (events ++ emit l a) := by
  cases a with
  | subscribe =>
    cases hstep
    refine ⟨?_, ?_, ?_, ?_⟩
    · rw [claims_append, h.claims]
      exact List.append_nil _
    · rw [publications_append]
      exact (List.append_nil _).symm ▸ h.publications
    · intro r
      rw [deliveriesTo_append, h.deliveries]
      simp only [emit, deliveriesTo, List.filterMap_cons, List.filterMap_nil, List.append_nil]
      rcases Nat.lt_trichotomy r l.subscribers.length with hlt | rfl | hgt
      · rw [List.getElem?_append_left hlt]
      · simp
      · rw [List.getElem?_eq_none (by omega), List.getElem?_eq_none (by simp; omega)]
    · intro sub hsub
      rcases List.mem_append.mp hsub with hold | hnew
      · exact ⟨(h.served sub hold).joined_le, (h.served sub hold).cursor_le,
          (h.served sub hold).delivered, (h.served sub hold).passed⟩
      · obtain rfl := List.mem_singleton.mp hnew
        refine ⟨Nat.le_refl _, Nat.le_refl _, ?_, fun i x hlo hhi => ?_⟩
        · simp [window]
        · simp only at hlo hhi
          omega
  | append x =>
    cases hstep
    refine ⟨?_, ?_, ?_, fun sub hsub => (h.served sub hsub).append _⟩
    · rw [claims_append, h.claims, List.filterMap_append]
      cases x <;> rfl
    · rw [publications_append, List.filterMap_append]
      have hnone : Broadcast.publications (emit l (.append x)) = [] := by cases x <;> rfl
      rw [hnone]
      exact h.publications.append_right _
    · intro r
      have hnone : deliveriesTo r (emit l (.append x)) = [] := by cases x <;> rfl
      rw [deliveriesTo_append, hnone, List.append_nil]
      exact h.deliveries r
  | publish i =>
    simp only [Broadcast.step] at hstep
    split at hstep
    · rename_i x hpending
      cases hstep
      have hemit : emit l (.publish i) = [.published x] := by simp only [emit, hpending]
      rw [hemit]
      have hsettled : (l.setEntry i (.published x)).Explains (events ++ [.published x]) :=
        h.setEntry hpending rfl
      exact hsettled
    · cases hstep
  | drop i =>
    simp only [Broadcast.step] at hstep
    split at hstep
    · rename_i x hpending
      cases hstep
      have hsettled : (l.setEntry i (.dropped x)).Explains (events ++ []) :=
        h.setEntry hpending rfl
      exact hsettled
    · cases hstep
  | deliver r =>
    obtain ⟨sub, hsub, hstep⟩ := Option.bind_eq_some_iff.mp hstep
    split at hstep
    · rename_i x hnext
      cases hstep
      have hemit : emit l (.deliver r) = [.delivered r x] := by
        simp only [emit, hsub, Option.bind_some, hnext]
      have hserved := h.served sub (List.mem_of_getElem? hsub)
      have hsub' := hserved.advance (Log.next_eq_some.mp hnext).2 (by simp)
      rw [hemit]
      refine h.setSubscriber hsub hsub' rfl rfl ?_ ?_
      · simp [deliveriesTo]
      · intro r' hr
        simp [deliveriesTo, Ne.symm hr]
    · cases hstep
  | skip r =>
    obtain ⟨sub, hsub, hstep⟩ := Option.bind_eq_some_iff.mp hstep
    split at hstep
    · rename_i x hnext
      cases hstep
      have hserved := h.served sub (List.mem_of_getElem? hsub)
      have hsub' := hserved.advance (Log.next_eq_some.mp hnext).2 (by simp)
      have hnone : (Entry.dropped x).message.toList = [] := rfl
      rw [hnone, List.append_nil] at hsub'
      exact h.setSubscriber hsub hsub' rfl rfl (List.append_nil _).symm (fun _ _ => rfl)
    · cases hstep
  | unsubscribe r =>
    obtain ⟨sub, hsub, hstep⟩ := Option.bind_eq_some_iff.mp hstep
    split at hstep
    · cases hstep
      have hserved := h.served sub (List.mem_of_getElem? hsub)
      refine h.setSubscriber hsub ?_ rfl rfl (List.append_nil _).symm (fun _ _ => rfl)
      exact ⟨hserved.joined_le, hserved.cursor_le, hserved.delivered, hserved.passed⟩
    · cases hstep

/-! ### Whole runs -/

theorem Shows.explains (h : Shows events l) : l.Explains events := by
  refine h.invariant (P := fun events l => l.Explains events) ?_
    (fun _ _ _ _ hi _ hstep => hi.step hstep)
  exact ⟨rfl, List.Perm.refl _, fun _ => rfl, by simp [Log.empty]⟩

/-- **Order.** A subscriber is delivered claimed messages, in the order of the claims. -/
theorem Shows.deliveriesTo_sublist (h : Shows events l) (r : Nat) :
    (deliveriesTo r events).Sublist (claims events) := by
  have hi := h.explains
  rw [hi.deliveries, hi.claims]
  cases hsub : l.subscribers[r]? with
  | none => exact List.nil_sublist _
  | some sub =>
    rw [Option.map_some, Option.getD_some, (hi.served sub (List.mem_of_getElem? hsub)).delivered]
    exact (l.window_sublist sub).trans (Entry.message_sublist _)

/-- **No invention, no duplication.** A subscriber is delivered what was
published before, and nothing more often than it was published. -/
theorem Shows.deliveriesTo_subperm (h : Shows events l) (r : Nat) :
    (deliveriesTo r events).Subperm (publications events) := by
  have hi := h.explains
  rw [hi.deliveries]
  refine List.Subperm.trans ?_ hi.publications.symm.subperm
  cases hsub : l.subscribers[r]? with
  | none => exact List.nil_subperm
  | some sub =>
    rw [Option.map_some, Option.getD_some, (hi.served sub (List.mem_of_getElem? hsub)).delivered]
    exact (l.window_sublist sub).subperm

/-- **Agreement.** Of two subscribers that started at one place, one was
delivered what the other was, and maybe more. -/
theorem Shows.agreement (h : Shows events l) {r' : Nat} {sub' : Subscriber α}
    (hsub : l.subscribers[r]? = some sub) (hsub' : l.subscribers[r']? = some sub')
    (hjoined : sub.joined = sub'.joined) :
    deliveriesTo r events <+: deliveriesTo r' events ∨
      deliveriesTo r' events <+: deliveriesTo r events := by
  have hi := h.explains
  have hshorter : ∀ {s s' : Subscriber α}, s.joined = s'.joined → s.cursor ≤ s'.cursor →
      l.window s <+: l.window s' := by
    intro s s' hjoin hle
    simp only [Log.window, ← hjoin]
    have htake : l.entries.take s.cursor <+: l.entries.take s'.cursor :=
      List.take_prefix_take_left hle
    exact (htake.drop _).filterMap _
  rw [hi.deliveries, hi.deliveries, hsub, hsub', Option.map_some, Option.map_some,
    Option.getD_some, Option.getD_some, (hi.served sub (List.mem_of_getElem? hsub)).delivered,
    (hi.served sub' (List.mem_of_getElem? hsub')).delivered]
  rcases Nat.le_total sub.cursor sub'.cursor with hle | hle
  · exact Or.inl (hshorter hjoined hle)
  · exact Or.inr (hshorter hjoined.symm hle)

end

end Broadcast
