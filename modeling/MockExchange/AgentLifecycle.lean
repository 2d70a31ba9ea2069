import MockExchange.UnlinkedFiles

/-!
# Starting and stopping agents

`start` of an agent assigns six attributes, its own and those of its admin
client, and `teardown` closes what they hold. An assignment makes the new object
first; the object that was there goes afterwards, and its `__del__` closes it.
So agents may be started and torn down as often as one likes without a handle
being lost. But what goes last also looks at the name last: an agent that is
started again while nobody publishes the market data takes the name away from
the file it has just opened, and waits on it for good.

Every assignment and every closing is a step of its own, in any order among
agents and between other calls from Python, which leave the agents' objects
alone.
-/

namespace MockExchange

open Transition ListUpdate

/-- The attributes of `AlpacaAgent` and of its `AdminClient` that `start`
assigns, in this order. -/
inductive Attribute where
  | orderPublication
  | mdCtrlPublication
  | mdCtrlSubscription
  | mdSubscription
  | adminPublication
  | adminSubscription
deriving DecidableEq, Repr

namespace Attribute

def isPublication : Attribute → Bool
  | orderPublication | mdCtrlPublication | adminPublication => true
  | mdCtrlSubscription | mdSubscription | adminSubscription => false

/-- The queue's name in `ArchiveConstants`, joined to `DEFAULT_SHM_PATH`. -/
def fileName : Attribute → String
  | orderPublication => "/agent_to_ledger"
  | mdCtrlPublication => "/market_data_ctrl_rqst"
  | mdCtrlSubscription => "/market_data_ctrl_resp"
  | mdSubscription => "/market_data"
  | adminPublication => "/admin_in"
  | adminSubscription => "/admin_out"

/-- `DEFAULT_QUEUE_SIZE`. -/
def params (attr : Attribute) : IpcQueueParameters :=
  ⟨2 ^ 24, attr.isPublication, by decide, by decide⟩

def all : List Attribute :=
  [orderPublication, mdCtrlPublication, mdCtrlSubscription, mdSubscription, adminPublication,
    adminSubscription]

theorem mem_all (attr : Attribute) : attr ∈ all := by
  cases attr <;> decide

end Attribute

/-- The Python objects, which of them each agent's attributes hold, and those
that were made by others. -/
structure Agents where
  world : World
  attributes : Nat × Attribute → Option Nat
  others : List Nat

def Agents.init : Agents := ⟨.init, fun _ => none, []⟩

inductive AgentAction where
  | assign (owner : Nat × Attribute)
  | closeHandle (owner : Nat × Attribute)
  | call (c : Call)

/-- `AlpacaAgent.close_handle`, and the same in `AdminClient.teardown`. -/
def World.closeHandle (w : World) : Option Nat → Option World
  | none => some w
  | some i => w.close i

/-- What a call adds to the objects of others. -/
def Call.made (w : World) : Call → List Nat
  | .construct _ _ => [w.endpoints.length]
  | _ => []

/-- A call that opens or closes one of these objects, or none. -/
def Call.Opens (objects : List Nat) : Call → Prop
  | .open i _ | .close i => i ∈ objects
  | _ => True

instance (objects : List Nat) (c : Call) : Decidable (c.Opens objects) := by
  apply Call.casesOn (motive := fun c => Decidable (c.Opens objects)) c
  · exact fun _ _ => inferInstanceAs (Decidable True)
  · exact fun i _ => inferInstanceAs (Decidable (i ∈ objects))
  · exact fun i => inferInstanceAs (Decidable (i ∈ objects))
  · exact fun _ => inferInstanceAs (Decidable True)
  · exact fun _ => inferInstanceAs (Decidable True)
  · exact fun _ => inferInstanceAs (Decidable True)
  · exact fun _ _ => inferInstanceAs (Decidable True)
  · exact fun _ => inferInstanceAs (Decidable True)
  · exact fun _ => inferInstanceAs (Decidable True)

namespace Agents

def step (s : Agents) : AgentAction → Option Agents
  | .assign owner => (s.world.construct owner.2.params owner.2.fileName).bind fun w =>
    (w.closeHandle (s.attributes owner)).map fun w =>
      { s with
        world := w
        attributes := Function.update s.attributes owner (some s.world.endpoints.length) }
  | .closeHandle owner => (s.world.closeHandle (s.attributes owner)).map fun w =>
    { s with world := w }
  | .call c => (s.world.call c).map fun w =>
    { s with world := w, others := s.others ++ c.made s.world }

/-- `AlpacaAgent.start`. -/
def start (a : Nat) : List AgentAction := Attribute.all.map fun attr => .assign (a, attr)

/-- `AlpacaAgent.teardown`, which `__del__` calls too. -/
def teardown (a : Nat) : List AgentAction :=
  Attribute.all.map fun attr => .closeHandle (a, attr)

/-- Others open and close objects of their own only. -/
def Allowed (s : Agents) : AgentAction → Prop
  | .assign _ | .closeHandle _ => True
  | .call c => c.Possible s.world ∧ c.Opens s.others

instance (s : Agents) (action : AgentAction) : Decidable (s.Allowed action) := by
  apply AgentAction.casesOn (motive := fun action => Decidable (s.Allowed action)) action
  · exact fun _ => inferInstanceAs (Decidable True)
  · exact fun _ => inferInstanceAs (Decidable True)
  · exact fun c => inferInstanceAs (Decidable (c.Possible s.world ∧ c.Opens s.others))

/-- The pointer in the object that an attribute holds. -/
def handle (s : Agents) (owner : Nat × Attribute) : Option Nat :=
  (s.attributes owner).bind fun i => s.world.endpoints[i]?.bind Endpoint.handle

end Agents

/-- An object of the kind and the queue that the attribute is for. -/
structure Endpoint.Fits (e : Endpoint) (attr : Attribute) : Prop where
  isPublication : e.isPublication = attr.isPublication
  fileName : e.fileName = attr.fileName

/-- Between two steps. -/
structure Agents.Inv (s : Agents) : Prop where
  accounts : s.world.Accounts
  held : ∀ owner i, s.attributes owner = some i →
    ∃ e, s.world.endpoints[i]? = some e ∧ e.Fits owner.2
  unique : ∀ owner owner' i, s.attributes owner = some i → s.attributes owner' = some i →
    owner = owner'
  apart : ∀ owner i, s.attributes owner = some i → i ∉ s.others
  existing : ∀ i ∈ s.others, i < s.world.endpoints.length
  kept : ∀ (i : Nat) (e : Endpoint), s.world.endpoints[i]? = some e → e.handle ≠ none →
    i ∈ s.others ∨ ∃ owner, s.attributes owner = some i

section

variable {w w' : World} {i k : Nat} {e : Endpoint} {c : Call} {params : IpcQueueParameters}
  {fileName : String} {s s' : Agents} {o : Option Nat} {owner : Nat × Attribute}

/-! ### What the calls do to the objects -/

theorem IpcQueue.construct_names {shm shm' : SharedMemory} {queue : IpcQueue}
    (h : construct shm params fileName = some (queue, shm')) :
    shm'.names fileName = some queue.file := by
  unfold construct at h
  cases hname : shm.names fileName with
  | none =>
    simp only [hname, Option.some.injEq, Prod.mk.injEq] at h
    obtain ⟨rfl, rfl⟩ := h
    exact Function.update_self ..
  | some file =>
    simp only [hname] at h
    obtain ⟨f, -, h⟩ := Option.bind_eq_some_iff.mp h
    split at h
    · cases h
    · obtain ⟨rfl, rfl⟩ := Prod.mk.inj (Option.some.inj h)
      exact hname

/-- A new Python object, its C++ object and where the name leads then. -/
theorem World.construct_eq (h : w.construct params fileName = some w') : ∃ queue,
    w'.heap = w.heap ++ [some ⟨params.isWriter, some queue⟩] ∧
      w'.endpoints = w.endpoints ++ [⟨params.isWriter, fileName, some w.heap.length⟩] ∧
      w'.shm.names fileName = some queue.file := by
  have hnew : (w.endpoints ++ [⟨params.isWriter, fileName, none⟩])[w.endpoints.length]? =
      some ⟨params.isWriter, fileName, none⟩ := by
    rw [List.getElem?_append_right (Nat.le_refl _), Nat.sub_self]
    rfl
  have hclose : World.close
      { w with endpoints := w.endpoints ++ [⟨params.isWriter, fileName, none⟩] }
      w.endpoints.length =
        some { w with endpoints := w.endpoints ++ [⟨params.isWriter, fileName, none⟩] } := by
    rw [World.close, hnew, Option.bind_some]
  rw [World.construct, World.open, hclose, Option.bind_some, hnew, Option.bind_some] at h
  obtain ⟨⟨queue, shm⟩, hconstruct, rfl⟩ := Option.map_eq_some_iff.mp h
  refine ⟨queue, rfl, ?_, IpcQueue.construct_names hconstruct⟩
  simp only [List.set_append_right _ _ (Nat.le_refl _), Nat.sub_self]
  rfl

theorem World.Accounts.open_endpoints (h : w.Accounts) (hi : w.endpoints[i]? = some e)
    (hopen : w.open i params = some w') : ∃ handle,
      w'.endpoints = w.endpoints.set i { e with handle := some handle } := by
  obtain ⟨closed, hclose, -, hclosed⟩ := h.close hi
  have hreset : closed.endpoints[i]? = some { e with handle := none } := by
    rw [hclosed, List.getElem?_set_self (lt_of_getElem? hi)]
  rw [World.open, hclose, Option.bind_some, hreset, Option.bind_some] at hopen
  obtain ⟨⟨queue, shm⟩, -, rfl⟩ := Option.map_eq_some_iff.mp hopen
  exact ⟨closed.heap.length, by rw [hclosed, List.set_set]⟩

namespace Agents

theorem Inv.init : Agents.init.Inv where
  accounts := .init
  held _ _ hheld := by cases hheld
  unique _ _ _ hheld := by cases hheld
  apart _ _ hheld := by cases hheld
  existing _ hi := by cases hi
  kept i e hi := by simp [Agents.init, World.init] at hi

/-- One object gets another pointer, or loses the one it had. -/
theorem Inv.set (h : s.Inv) (hw : w'.Accounts) (hi : s.world.endpoints[i]? = some e)
    (hset : w'.endpoints = s.world.endpoints.set i { e with handle := o })
    (ho : o ≠ none → i ∈ s.others) : Inv { s with world := w' } := by
  refine ⟨hw, ?_, h.unique, h.apart, ?_, ?_⟩
  · intro owner j hj
    obtain ⟨e', he', hfits⟩ := h.held owner j hj
    by_cases hij : i = j
    · rw [hij, he'] at hi
      obtain rfl := Option.some.inj hi
      refine ⟨{ e' with handle := o }, ?_, hfits.isPublication, hfits.fileName⟩
      change w'.endpoints[j]? = _
      rw [hset, hij, List.getElem?_set_self (lt_of_getElem? he')]
    · refine ⟨e', ?_, hfits⟩
      change w'.endpoints[j]? = _
      rw [hset, List.getElem?_set_ne hij, he']
  · intro j hj
    change j < w'.endpoints.length
    rw [hset, List.length_set]
    exact h.existing j hj
  · intro j e' hj hopen
    change w'.endpoints[j]? = _ at hj
    rw [hset] at hj
    rcases getElem?_set_cases hj with ⟨rfl, rfl⟩ | ⟨-, hold⟩
    · exact Or.inl (ho hopen)
    · exact h.kept j e' hold hopen

theorem Inv.sameEndpoints (h : s.Inv) (hw : w'.Accounts)
    (hsame : w'.endpoints = s.world.endpoints) : Inv { s with world := w' } := by
  obtain ⟨_, hheld, hunique, hapart, hexisting, hkept⟩ := h
  rw [← hsame] at hheld hexisting hkept
  exact ⟨hw, hheld, hunique, hapart, hexisting, hkept⟩

/-- Others make an object. -/
theorem Inv.addOther (h : s.Inv) (params : IpcQueueParameters) (fileName : String) : ∃ w',
    s.world.construct params fileName = some w' ∧
      Inv { s with world := w', others := s.others ++ [s.world.endpoints.length] } := by
  obtain ⟨w', hconstruct, hw'⟩ := h.accounts.construct params fileName
  obtain ⟨queue, -, hendpoints, -⟩ := World.construct_eq hconstruct
  refine ⟨w', hconstruct, hw', ?_, h.unique, ?_, ?_, ?_⟩
  · intro owner i hi
    obtain ⟨e, he, hfits⟩ := h.held owner i hi
    refine ⟨e, ?_, hfits⟩
    change w'.endpoints[i]? = _
    rw [hendpoints, List.getElem?_append_left (lt_of_getElem? he), he]
  · intro owner i hi hmem
    obtain ⟨e, he, -⟩ := h.held owner i hi
    rcases List.mem_append.mp hmem with hold | hnew
    · exact h.apart owner i hi hold
    · have hlt := lt_of_getElem? he
      rw [List.mem_singleton.mp hnew] at hlt
      exact Nat.lt_irrefl _ hlt
  · intro i hi
    change i < w'.endpoints.length
    rw [hendpoints, List.length_append, List.length_singleton]
    rcases List.mem_append.mp hi with hold | hnew
    · exact Nat.lt_succ_of_lt (h.existing i hold)
    · rw [List.mem_singleton.mp hnew]
      exact Nat.lt_succ_self _
  · intro i e hi hopen
    change w'.endpoints[i]? = _ at hi
    rcases Nat.lt_or_ge i s.world.endpoints.length with hlt | hge
    · rw [hendpoints, List.getElem?_append_left hlt] at hi
      rcases h.kept i e hi hopen with hother | howner
      · exact Or.inl (List.mem_append_left _ hother)
      · exact Or.inr howner
    · have hlast := lt_of_getElem? hi
      rw [hendpoints, List.length_append, List.length_singleton] at hlast
      have heq : i = s.world.endpoints.length := by omega
      exact Or.inl (List.mem_append_right _ (List.mem_singleton.mpr heq))

/-- An attribute after one of them was assigned. -/
theorem assigned_cases {attributes : Nat × Attribute → Option Nat} {owner' : Nat × Attribute}
    {j : Nat} (h : Function.update attributes owner (some i) owner' = some j) :
    (owner' = owner ∧ j = i) ∨ (owner' ≠ owner ∧ attributes owner' = some j) := by
  by_cases hsame : owner' = owner
  · rw [hsame, Function.update_self] at h
    exact Or.inl ⟨hsame, (Option.some.inj h).symm⟩
  · rw [Function.update_of_ne hsame] at h
    exact Or.inr ⟨hsame, h⟩

/-- An attribute that holds nothing open takes over what others made last. -/
theorem Inv.adopt (h : Inv { s with others := s.others ++ [i] }) (hi : i ∉ s.others)
    (he : s.world.endpoints[i]? = some e) (hfits : e.Fits owner.2)
    (hclosed : s.handle owner = none) :
    Inv { s with attributes := Function.update s.attributes owner (some i) } := by
  have hfree : ∀ owner', s.attributes owner' ≠ some i := fun owner' hheld =>
    h.apart owner' i hheld (List.mem_append_right _ List.mem_cons_self)
  refine ⟨h.accounts, ?_, ?_, ?_, fun j hj => h.existing j (List.mem_append_left _ hj), ?_⟩
  · intro owner' j hheld
    rcases assigned_cases hheld with ⟨rfl, rfl⟩ | ⟨-, hold⟩
    · exact ⟨e, he, hfits⟩
    · exact h.held owner' j hold
  · intro owner₁ owner₂ j h₁ h₂
    rcases assigned_cases h₁ with ⟨hfirst, rfl⟩ | ⟨-, hold₁⟩ <;>
      rcases assigned_cases h₂ with ⟨hsecond, heq⟩ | ⟨-, hold₂⟩
    · rw [hfirst, hsecond]
    · exact absurd hold₂ (hfree owner₂)
    · exact absurd (heq ▸ hold₁) (hfree owner₁)
    · exact h.unique owner₁ owner₂ j hold₁ hold₂
  · intro owner' j hheld
    rcases assigned_cases hheld with ⟨-, rfl⟩ | ⟨-, hold⟩
    · exact hi
    · exact fun hmem => h.apart owner' j hold (List.mem_append_left _ hmem)
  · intro j e' hj hopen
    rcases h.kept j e' hj hopen with hmem | ⟨owner', hheld⟩
    · rcases List.mem_append.mp hmem with hold | hnew
      · exact Or.inl hold
      · rw [List.mem_singleton.mp hnew]
        exact Or.inr ⟨owner, Function.update_self ..⟩
    · have hne : owner' ≠ owner := by
        rintro rfl
        have hj : s.world.endpoints[j]? = some e' := hj
        have hheld : s.attributes owner' = some j := hheld
        rw [Agents.handle, hheld, Option.bind_some, hj, Option.bind_some] at hclosed
        exact hopen hclosed
      exact Or.inr ⟨owner', by rw [← hheld]; exact Function.update_of_ne hne ..⟩

/-! ### Steps -/

/-- Closing what an attribute holds leaves every other object alone. -/
theorem Inv.closeHandle (h : s.Inv) (owner : Nat × Attribute) : ∃ w',
    s.world.closeHandle (s.attributes owner) = some w' ∧ Inv { s with world := w' } ∧
      handle { s with world := w' } owner = none ∧
      ∀ i, s.attributes owner ≠ some i → w'.endpoints[i]? = s.world.endpoints[i]? := by
  cases hheld : s.attributes owner with
  | none =>
    refine ⟨s.world, rfl, h, ?_, fun _ _ => rfl⟩
    rw [handle, hheld, Option.bind_none]
  | some i =>
    obtain ⟨e, he, -⟩ := h.held owner i hheld
    obtain ⟨w', hclose, hw', hendpoints⟩ := h.accounts.close he
    refine ⟨w', hclose, h.set hw' he hendpoints (absurd rfl), ?_, fun j hne => ?_⟩
    · rw [handle, hheld, Option.bind_some]
      change w'.endpoints[i]?.bind Endpoint.handle = none
      rw [hendpoints, List.getElem?_set_self (lt_of_getElem? he), Option.bind_some]
    · rw [hendpoints, List.getElem?_set_ne fun hij => hne (congrArg some hij)]

/-- What the other attributes hold is another object. -/
theorem Inv.handle_eq (h : s.Inv) {owner' : Nat × Attribute} (hne : owner' ≠ owner)
    (hsame : s'.attributes owner' = s.attributes owner')
    (hothers : ∀ i, s.attributes owner ≠ some i → i < s.world.endpoints.length →
      s'.world.endpoints[i]? = s.world.endpoints[i]?) : s'.handle owner' = s.handle owner' := by
  rw [handle, handle, hsame]
  refine Option.bind_congr fun i hi => ?_
  obtain ⟨e, he, -⟩ := h.held owner' i hi
  rw [hothers i (fun hheld => hne (h.unique owner' owner i hi hheld)) (lt_of_getElem? he)]

/-- An attribute that is assigned holds a new open object, whatever it held. -/
theorem Inv.assign (h : s.Inv) (owner : Nat × Attribute) : ∃ w w',
    s.world.construct owner.2.params owner.2.fileName = some w ∧
      w.closeHandle (s.attributes owner) = some w' ∧
      Inv { s with
        world := w'
        attributes := Function.update s.attributes owner (some s.world.endpoints.length) } ∧
      handle { s with
        world := w'
        attributes := Function.update s.attributes owner (some s.world.endpoints.length) } owner =
          some s.world.heap.length ∧
      ∀ i, s.attributes owner ≠ some i → i < s.world.endpoints.length →
        w'.endpoints[i]? = s.world.endpoints[i]? := by
  obtain ⟨w, hconstruct, hadded⟩ := h.addOther owner.2.params owner.2.fileName
  obtain ⟨queue, -, hendpoints, -⟩ := World.construct_eq hconstruct
  obtain ⟨w', hclose, hw', hnone, hothers⟩ := hadded.closeHandle owner
  have hfree : s.attributes owner ≠ some s.world.endpoints.length := fun hheld =>
    hadded.apart owner _ hheld (List.mem_append_right _ List.mem_cons_self)
  have hlast : s.world.endpoints.length ∉ s.others := fun hmem =>
    Nat.lt_irrefl _ (h.existing _ hmem)
  have hnew : w'.endpoints[s.world.endpoints.length]? =
      some ⟨owner.2.isPublication, owner.2.fileName, some s.world.heap.length⟩ := by
    rw [hothers _ hfree]
    change w.endpoints[s.world.endpoints.length]? = _
    rw [hendpoints, List.getElem?_append_right (Nat.le_refl _), Nat.sub_self]
    rfl
  refine ⟨w, w', hconstruct, hclose, ?_, ?_, fun i hne hlt => ?_⟩
  · exact Inv.adopt (s := { s with world := w' }) hw' hlast hnew ⟨rfl, rfl⟩ hnone
  · simp only [handle, Function.update_self, Option.bind_some, hnew]
  · rw [hothers i hne]
    change w.endpoints[i]? = _
    rw [hendpoints, List.getElem?_append_left hlt]

/-- Calls of others. -/
theorem Inv.call (h : s.Inv) (hallowed : s.Allowed (.call c)) (hcall : s.world.call c = some w') :
    Inv { s with world := w', others := s.others ++ c.made s.world } := by
  have hw' := h.accounts.call hcall
  obtain ⟨-, helse⟩ := hallowed
  cases c with
  | construct params fileName =>
    obtain ⟨w'', hconstruct, hadded⟩ := h.addOther params fileName
    rw [World.call, hconstruct] at hcall
    obtain rfl := Option.some.inj hcall
    exact hadded
  | «open» i params =>
    have hlt := h.existing i helse
    have hi : s.world.endpoints[i]? = some s.world.endpoints[i] := List.getElem?_eq_getElem hlt
    obtain ⟨handle, hendpoints⟩ := h.accounts.open_endpoints hi hcall
    simp only [Call.made, List.append_nil]
    exact h.set hw' hi hendpoints fun _ => helse
  | close i =>
    have hlt := h.existing i helse
    have hi : s.world.endpoints[i]? = some s.world.endpoints[i] := List.getElem?_eq_getElem hlt
    obtain ⟨w'', hclose, -, hendpoints⟩ := h.accounts.close hi
    rw [World.call, hclose] at hcall
    obtain rfl := Option.some.inj hcall
    simp only [Call.made, List.append_nil]
    exact h.set hw' hi hendpoints (absurd rfl)
  | _ =>
    simp only [Call.made, List.append_nil]
    cases World.Stepped.of_call hcall <;> exact h.sameEndpoints hw' rfl

theorem step_assign (hconstruct : s.world.construct owner.2.params owner.2.fileName = some w)
    (hclose : w.closeHandle (s.attributes owner) = some w') :
    s.step (.assign owner) = some { s with
      world := w'
      attributes := Function.update s.attributes owner (some s.world.endpoints.length) } := by
  rw [Agents.step, hconstruct, Option.bind_some, hclose, Option.map_some]

theorem step_closeHandle (hclose : s.world.closeHandle (s.attributes owner) = some w') :
    s.step (.closeHandle owner) = some { s with world := w' } := by
  rw [Agents.step, hclose, Option.map_some]

theorem Inv.step {action : AgentAction} (h : s.Inv) (hallowed : s.Allowed action)
    (hstep : s.step action = some s') : s'.Inv := by
  cases action with
  | assign owner =>
    obtain ⟨w, w', hconstruct, hclose, hassigned, -⟩ := h.assign owner
    rw [step_assign hconstruct hclose] at hstep
    exact Option.some.inj hstep ▸ hassigned
  | closeHandle owner =>
    obtain ⟨w', hclose, hclosed, -⟩ := h.closeHandle owner
    rw [step_closeHandle hclose] at hstep
    exact Option.some.inj hstep ▸ hclosed
  | call c =>
    obtain ⟨w', hcall, rfl⟩ := Option.map_eq_some_iff.mp hstep
    exact h.call hallowed hcall

theorem Inv.of_run (hrun : Reach Agents.step Allowed Agents.init s) : s.Inv :=
  hrun.invariant Inv.init fun _ _ _ h hallowed hstep => h.step hallowed hstep

/-! ### Rows of steps -/

/-- What a step does to its own attribute and to no other, a row of them does to
those it is made of. -/
theorem Inv.row {act : Nat × Attribute → AgentAction} {P : Option Nat → Prop}
    (hact : ∀ (s : Agents) (owner : Nat × Attribute), s.Inv → ∃ s',
      s.step (act owner) = some s' ∧ s.Allowed (act owner) ∧ P (s'.handle owner) ∧
        ∀ owner', owner' ≠ owner → s'.handle owner' = s.handle owner')
    (a : Nat) (attributes : List Attribute) (h : s.Inv) : ∃ s',
      exec Agents.step Allowed s (attributes.map fun attr => act (a, attr)) = some s' ∧
        (∀ attr ∈ attributes, P (s'.handle (a, attr))) ∧
        ∀ owner, (∀ attr ∈ attributes, owner ≠ (a, attr)) →
          s'.handle owner = s.handle owner := by
  induction attributes generalizing s with
  | nil => exact ⟨s, rfl, by simp, fun _ _ => rfl⟩
  | cons first rest ih =>
    obtain ⟨t, hstep, hallowed, hfirst, hothers⟩ := hact s (a, first) h
    obtain ⟨s', hexec, hrest, hkept⟩ := ih (h.step hallowed hstep)
    refine ⟨s', ?_, ?_, ?_⟩
    · rw [List.map_cons, exec, if_pos hallowed, hstep, Option.bind_some, hexec]
    · intro attr hmem
      by_cases hlater : attr ∈ rest
      · exact hrest attr hlater
      · obtain rfl : attr = first := (List.mem_cons.mp hmem).resolve_right hlater
        rw [hkept (a, attr) fun attr' hmem' heq => hlater ?_]
        · exact hfirst
        · rw [(Prod.mk.inj heq).2]
          exact hmem'
    · intro owner hne
      rw [hkept owner fun attr hmem => hne attr (List.mem_cons_of_mem _ hmem)]
      exact hothers owner (hne first List.mem_cons_self)

theorem Inv.start (h : s.Inv) (a : Nat) : ∃ s',
    exec Agents.step Allowed s (Agents.start a) = some s' ∧
      (∀ attr, (s'.handle (a, attr)).isSome = true) ∧
      ∀ owner, owner.1 ≠ a → s'.handle owner = s.handle owner := by
  have hact : ∀ (s : Agents) (owner : Nat × Attribute), s.Inv → ∃ s',
      s.step (.assign owner) = some s' ∧ s.Allowed (.assign owner) ∧
        (s'.handle owner).isSome = true ∧
        ∀ owner', owner' ≠ owner → s'.handle owner' = s.handle owner' := by
    intro s owner h
    obtain ⟨w, w', hconstruct, hclose, -, hnew, hkept⟩ := h.assign owner
    refine ⟨_, step_assign hconstruct hclose, trivial, ?_, fun owner' hne => ?_⟩
    · rw [hnew, Option.isSome_some]
    · exact h.handle_eq hne (Function.update_of_ne hne ..) hkept
  obtain ⟨s', hexec, hopen, hothers⟩ :=
    h.row (P := fun o => o.isSome = true) hact a Attribute.all
  refine ⟨s', hexec, fun attr => hopen attr attr.mem_all, fun owner hne => ?_⟩
  exact hothers owner fun _ _ heq => hne (congrArg Prod.fst heq)

theorem Inv.teardown (h : s.Inv) (a : Nat) : ∃ s',
    exec Agents.step Allowed s (Agents.teardown a) = some s' ∧
      (∀ attr, s'.handle (a, attr) = none) ∧
      ∀ owner, owner.1 ≠ a → s'.handle owner = s.handle owner := by
  have hact : ∀ (s : Agents) (owner : Nat × Attribute), s.Inv → ∃ s',
      s.step (.closeHandle owner) = some s' ∧ s.Allowed (.closeHandle owner) ∧
        s'.handle owner = none ∧
        ∀ owner', owner' ≠ owner → s'.handle owner' = s.handle owner' := by
    intro s owner h
    obtain ⟨w', hclose, -, hnone, hkept⟩ := h.closeHandle owner
    exact ⟨_, step_closeHandle hclose, trivial, hnone, fun owner' hne =>
      h.handle_eq hne rfl fun i hne' _ => hkept i hne'⟩
  obtain ⟨s', hexec, hclosed, hothers⟩ := h.row (P := fun o => o = none) hact a Attribute.all
  refine ⟨s', hexec, fun attr => hclosed attr attr.mem_all, fun owner hne => ?_⟩
  exact hothers owner fun _ _ heq => hne (congrArg Prod.fst heq)

/-! ### Names -/

/-- What an attribute's pointer leads to. -/
theorem Inv.native_eq (h : s.Inv) (hk : s.handle owner = some k) : ∃ queue,
    s.world.native k = some ⟨owner.2.isPublication, some queue⟩ ∧
      queue.isWriter = owner.2.isPublication ∧ queue.fileName = owner.2.fileName := by
  obtain ⟨i, hi, hat⟩ := Option.bind_eq_some_iff.mp hk
  obtain ⟨e, he, hopen⟩ := Option.bind_eq_some_iff.mp hat
  obtain ⟨e', he', hfits⟩ := h.held owner i hi
  rw [he] at he'
  obtain rfl := Option.some.inj he'
  obtain ⟨queue, hslot, hserves⟩ := h.accounts.serves i e he k hopen
  refine ⟨queue, ?_, hserves.isWriter.trans hfits.isPublication,
    hserves.fileName.trans hfits.fileName⟩
  rw [World.native, hslot, ← hfits.isPublication]
  rfl

/-- Nothing is closed where nothing is open. -/
theorem Inv.closeHandle_none {e : Endpoint} (h : s.Inv) (hnone : s.handle owner = none)
    (hendpoints : w.endpoints = s.world.endpoints ++ [e])
    (hclose : w.closeHandle (s.attributes owner) = some w') : w = w' := by
  cases hi : s.attributes owner with
  | none =>
    rw [hi] at hclose
    exact Option.some.inj hclose
  | some i =>
    obtain ⟨e', he', -⟩ := h.held owner i hi
    have hstill : w.endpoints[i]? = some e' := by
      rw [hendpoints, List.getElem?_append_left (lt_of_getElem? he'), he']
    rw [handle, hi, Option.bind_some, he', Option.bind_some] at hnone
    rw [hi, World.closeHandle, World.close, hstill, Option.bind_some, hnone] at hclose
    exact Option.some.inj hclose

/-- The object that an assignment replaces takes the name away. -/
def TakesNameAway (s s' : Agents) (owner : Nat × Attribute) : Prop :=
  ∃ k last, s.handle owner = some k ∧ queueOf (s.world.native k) = some last ∧
    s'.world.attached last.file true % 2 ^ 32 = 0 ∧
      (owner.2.isPublication = true → s'.world.attached last.file false % 256 = 0)

/-- After an assignment the name leads to the new object's file, unless the old
object has taken it away. -/
theorem Inv.assign_names (h : s.Inv) (hstep : s.step (.assign owner) = some s') :
    ∃ queue, queueOf ((s'.handle owner).bind s'.world.native) = some queue ∧
      (TakesNameAway s s' owner → s'.world.shm.names owner.2.fileName = none) ∧
      (¬ TakesNameAway s s' owner → s'.world.shm.names owner.2.fileName = some queue.file) := by
  obtain ⟨w, w', hconstruct, hclose, hassigned, hnew, -⟩ := h.assign owner
  rw [step_assign hconstruct hclose] at hstep
  obtain rfl := Option.some.inj hstep
  obtain ⟨queue, hheap, hendpoints, hnames⟩ := World.construct_eq hconstruct
  have hw : w.Accounts := h.accounts.call (c := .construct _ _) hconstruct
  have hobject : w.heap[s.world.heap.length]? =
      some (some ⟨owner.2.isPublication, some queue⟩) := by
    rw [hheap, List.getElem?_append_right (Nat.le_refl _), Nat.sub_self]
    rfl
  refine ⟨queue, ?_⟩
  rw [hnew, Option.bind_some]
  cases hold : s.handle owner with
  | none =>
    obtain rfl := h.closeHandle_none hold hendpoints hclose
    refine ⟨by rw [World.native, hobject]; rfl, ?_, fun _ => hnames⟩
    rintro ⟨k, last, hk, -⟩
    rw [hold] at hk
    cases hk
  | some k =>
    obtain ⟨i, hi, hat⟩ := Option.bind_eq_some_iff.mp hold
    obtain ⟨e, he, hopen⟩ := Option.bind_eq_some_iff.mp hat
    obtain ⟨e', he', hfits⟩ := h.held owner i hi
    rw [he] at he'
    obtain rfl := Option.some.inj he'
    obtain ⟨last, hslot, -⟩ := h.accounts.serves i e he k hopen
    have hlt := lt_of_getElem? hslot
    have hstill : w.endpoints[i]? = some e := by
      rw [hendpoints, List.getElem?_append_left (lt_of_getElem? he), he]
    have hslot' : w.heap[k]? = some (some ⟨e.isPublication, some last⟩) := by
      rw [hheap, List.getElem?_append_left hlt, hslot]
    have hlast : queueOf (s.world.native k) = some last := by
      rw [World.native, hslot]
      rfl
    have hlast' : queueOf (w.native k) = some last := by
      rw [World.native, hslot']
      rfl
    rw [hi] at hclose
    have hclosed := hw.close_names hstill hopen hlast' hclose
    rw [hfits.fileName, hfits.isPublication] at hclosed
    refine ⟨?_, ?_, fun hkept => ?_⟩
    · obtain ⟨_, -, -, heq⟩ := hw.close_eq hstill hopen
      have hw' := Option.some.inj (hclose.symm.trans heq)
      rw [World.native, hw', List.getElem?_set_ne (Nat.ne_of_lt hlt), hobject]
      rfl
    · rintro ⟨k', last', hk', hlast'', hleft⟩
      obtain rfl := Option.some.inj (hold.symm.trans hk')
      obtain rfl := Option.some.inj (hlast.symm.trans hlast'')
      rw [hclosed, if_pos hleft, Function.update_self]
    · rw [hclosed, if_neg fun hleft => hkept ⟨k, last, hold, hlast, hleft⟩, hnames]

end Agents

end

/-- **Starting and stopping leak nothing.** Whatever agents were started and torn
down before, in whatever order, an attribute holds an object for its own queue,
and every object that is open is held by an attribute or belongs to others.
Starting an agent, for the first time or again, leaves it with six open objects,
tearing it down leaves it with none, and neither touches another agent's. After
an assignment the name leads to the new object's file unless the one that was
replaced left no publication on its own file and, if it was a publication, no
subscription either: then the name is gone. -/
theorem agent_handles {s : Agents}
    (hreach : Reach Agents.step Agents.Allowed Agents.init s) :
    (∀ owner k, s.handle owner = some k → ∃ queue,
      s.world.native k = some ⟨owner.2.isPublication, some queue⟩ ∧
        queue.isWriter = owner.2.isPublication ∧ queue.fileName = owner.2.fileName) ∧
    (∀ (i : Nat) (e : Endpoint), s.world.endpoints[i]? = some e → e.handle ≠ none →
      i ∈ s.others ∨ ∃ owner, s.attributes owner = some i) ∧
    (∀ a, ∃ s', exec Agents.step Agents.Allowed s (Agents.start a) = some s' ∧
      (∀ attr, (s'.handle (a, attr)).isSome = true) ∧
      ∀ owner, owner.1 ≠ a → s'.handle owner = s.handle owner) ∧
    (∀ a, ∃ s', exec Agents.step Agents.Allowed s (Agents.teardown a) = some s' ∧
      (∀ attr, s'.handle (a, attr) = none) ∧
      ∀ owner, owner.1 ≠ a → s'.handle owner = s.handle owner) ∧
    ∀ owner s', s.step (.assign owner) = some s' → ∃ queue,
      queueOf ((s'.handle owner).bind s'.world.native) = some queue ∧
        (s.TakesNameAway s' owner → s'.world.shm.names owner.2.fileName = none) ∧
        (¬ s.TakesNameAway s' owner →
          s'.world.shm.names owner.2.fileName = some queue.file) := by
  have h := Agents.Inv.of_run hreach
  exact ⟨fun _ _ => h.native_eq, h.kept, h.start, h.teardown, fun _ _ => h.assign_names⟩

/-- An agent that is started again while nobody publishes market data is left
with a subscription whose file has lost its name. -/
theorem agent_handles_started_again : ∃ s s' : Agents,
    s.step (.assign (0, .mdSubscription)) = some s' ∧
      (s'.handle (0, .mdSubscription)).isSome = true ∧
      s'.world.shm.names "/market_data" = none := by
  have hexec : (exec Agents.step Agents.Allowed Agents.init (Agents.start 0)).any (fun s =>
      (s.step (.assign (0, .mdSubscription))).any fun s' =>
        decide (s.handle (0, .mdSubscription) = some 3 ∧
          (queueOf (s.world.native 3)).map IpcQueue.file = some 3 ∧
          (s'.handle (0, .mdSubscription)).isSome = true ∧
          s'.world.attached 3 true = 0)) = true := by
    decide +kernel
  obtain ⟨s, hrun, hs⟩ := exists_run_of_exec hexec
  obtain ⟨s', hstep, hs'⟩ := (Option.any_eq_true _ _).mp hs
  obtain ⟨hold, hfile, hopen, hpublications⟩ := of_decide_eq_true hs'
  obtain ⟨last, hlast, hfile⟩ := Option.map_eq_some_iff.mp hfile
  obtain ⟨-, -, -, -, hassign⟩ := agent_handles ⟨_, hrun⟩
  obtain ⟨queue, -, hgone, -⟩ := hassign _ s' hstep
  refine ⟨s, s', hstep, hopen, hgone ⟨3, last, hold, hlast, ?_, fun hkind => ?_⟩⟩
  · rw [hfile, hpublications, Nat.zero_mod]
  · cases hkind

end MockExchange
