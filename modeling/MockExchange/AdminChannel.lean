import MockExchange.AdminMessages
import MockExchange.BroadcastRefinement

/-!
# The admin channel

Controllers publish admin messages over a queue and every agent's `AdminClient`
polls it. Each payload that a poll hands out is one that a controller filled in,
and the client's handler reads back from it what was assigned. So a client knows
what the messages delivered to it say, in the order of the claims, and clients
that joined together and are equally far know the same symbols, whatever the
interleaving of all their steps.
-/

namespace MockExchange

open ByteMemory Memory ByteReading Transition

/-- The bytes a handler is given a pointer to. -/
def payloadMemory (payload : List UInt8) : Memory := fun i => payload.getD i 0

/-- The payload is the message, filled into a claimed buffer. -/
structure AdminMessage.Encodes (message : AdminMessage) (payload : List UInt8) : Prop where
  wellFormed : message.WellFormed
  length : payload.length = message.struct.layout.size
  written : message.WrittenTo (payloadMemory payload)

/-- What the handler returns for each payload, and the client afterwards. -/
def AdminClient.handleAll (client : AdminClient) :
    List (List UInt8) → List AdminResult × AdminClient
  | [] => ([], client)
  | payload :: rest =>
    let (result, client) := (client.handleAdminInputs payload.length).run (payloadMemory payload)
    let (results, client) := handleAll client rest
    (result :: results, client)

/-- What a client has done with messages that were delivered to it. -/
structure AdminClient.Followed (client : AdminClient) (payloads : List (List UInt8))
    (messages : List AdminMessage) : Prop where
  encodes : List.Forall₂ AdminMessage.Encodes messages payloads
  results : (client.handleAll payloads).1 = messages.map fun _ => .returned 0
  symbolMapping : ∀ symbolName, (client.handleAll payloads).2.symbolMapping symbolName =
    (messages.filterMap (AdminMessage.addedId symbolName)).getLast?.or
      (client.symbolMapping symbolName)
  agentCalls : (client.handleAll payloads).2.agentCalls =
    client.agentCalls ++ messages.filterMap (AdminMessage.shutdownOf client.agentName)

section

variable {client client' : AdminClient} {payloads : List (List UInt8)}
  {messages : List AdminMessage}

theorem AdminClient.handleAll_eq (client : AdminClient)
    (h : List.Forall₂ AdminMessage.Encodes messages payloads) : client.handleAll payloads =
      (messages.map fun _ => .returned 0, messages.foldl received client) := by
  induction h generalizing client with
  | nil => rfl
  | cons hencodes _ ih =>
    rw [handleAll, hencodes.length, client.handle_written hencodes.wellFormed hencodes.written]
    simp only [ih]
    rfl

theorem AdminClient.followed (client : AdminClient)
    (h : List.Forall₂ AdminMessage.Encodes messages payloads) :
    client.Followed payloads messages := by
  refine ⟨h, ?_, fun symbolName => ?_, ?_⟩
  · rw [client.handleAll_eq h]
  · rw [client.handleAll_eq h]
    exact foldl_received_symbolMapping messages client symbolName
  · rw [client.handleAll_eq h]
    exact foldl_received_agentCalls messages client

theorem exists_encoded
    (h : ∀ payload ∈ payloads, ∃ message : AdminMessage, message.Encodes payload) : ∃ messages,
      List.Forall₂ AdminMessage.Encodes messages payloads := by
  induction payloads with
  | nil => exact ⟨[], .nil⟩
  | cons payload payloads ih =>
    obtain ⟨message, hmessage⟩ := h payload List.mem_cons_self
    obtain ⟨messages, hmessages⟩ := ih fun p hp => h p (List.mem_cons_of_mem _ hp)
    exact ⟨message :: messages, .cons hmessage hmessages⟩

end

/-- **Clients of the admin channel agree.** If every payload that was claimed is
an admin message, a client that handles what is delivered to it does what these
messages say and returns 0 each time; and clients that joined at one write
offset, and were delivered equally many messages, map every symbol alike. -/
theorem admin_clients_agree {Q : RingSize} {t : State}
    {events : List (Broadcast.Event (List UInt8))}
    (hrun : Emits (step Q) (ChannelRun Q) (State.emit Q) State.init events t)
    (hadmin : ∀ payload ∈ Broadcast.claims events, ∃ message : AdminMessage,
      message.Encodes payload) :
    (∀ (r : Nat) (client : AdminClient), ∃ messages,
      client.Followed (Broadcast.deliveriesTo r events) messages) ∧
    ∀ (r r' : Nat) (rd rd' : Reader) (client client' : AdminClient), t.readers[r]? = some rd →
      t.readers[r']? = some rd' → rd.joinOffset = rd'.joinOffset →
      (Broadcast.deliveriesTo r events).length = (Broadcast.deliveriesTo r' events).length →
      client.symbolMapping = client'.symbolMapping →
      (client.handleAll (Broadcast.deliveriesTo r events)).2.symbolMapping =
        (client'.handleAll (Broadcast.deliveriesTo r' events)).2.symbolMapping := by
  have hshows : Broadcast.Shows events (t.broadcast Q) :=
    hrun.refine (P := ChannelInv Q) (f := State.broadcast Q) ChannelInv.init
      fun _ _ _ hi hok hstep => hi.follows hok hstep
  have hencoded : ∀ r, ∃ messages,
      List.Forall₂ AdminMessage.Encodes messages (Broadcast.deliveriesTo r events) :=
    fun r => exists_encoded fun payload hpayload =>
      hadmin payload ((hshows.deliveriesTo_sublist r).subset hpayload)
  refine ⟨fun r client => ?_, ?_⟩
  · obtain ⟨messages, hmessages⟩ := hencoded r
    exact ⟨messages, client.followed hmessages⟩
  · intro r r' rd rd' client client' hrd hrd' hjoin hlength hsymbols
    have hsame : Broadcast.deliveriesTo r events = Broadcast.deliveriesTo r' events := by
      rcases hshows.agreement (State.broadcast_subscriber hrd) (State.broadcast_subscriber hrd')
        (by simp only [State.subscriber, hjoin]) with hle | hle
      · exact hle.eq_of_length hlength
      · exact (hle.eq_of_length hlength.symm).symm
    obtain ⟨messages, hmessages⟩ := hencoded r
    have hfollowed := client.followed hmessages
    have hfollowed' := client'.followed (hsame ▸ hmessages)
    funext symbolName
    rw [hfollowed.symbolMapping, hfollowed'.symbolMapping, hsymbols]

/-- The bytes a claimed buffer was filled with encode the message. -/
theorem AdminMessage.WellFormed.encodes {message : AdminMessage} {payload : List UInt8}
    (hwell : message.WellFormed) (old : Memory)
    (hset : (message.struct.layout.setattrs 0 old
      (message.struct.assignments message.attributes)).any (fun filled =>
        decide (filled.bytes 0 message.struct.layout.size = payload)) = true) :
    message.Encodes payload := by
  obtain ⟨filled, hfilled, hbytes⟩ := (Option.any_eq_true _ _).mp hset
  obtain rfl := of_decide_eq_true hbytes
  refine ⟨hwell, length_bytes, old, filled, hfilled, fun i _ hi => ?_⟩
  have hlt : i < message.struct.layout.size := by omega
  rw [payloadMemory, List.getD_eq_getElem?_getD, getElem?_bytes hlt, Nat.zero_add]
  rfl

/-- A symbol and a shutdown of all agents, messages of 48 and 56 bytes, reach two
agents, one of which polls them late. A third has left before. -/
theorem admin_clients_agree_two_agents : ∃ events : List (Broadcast.Event (List UInt8)),
    (Broadcast.deliveriesTo 0 events).length = 2 ∧
    (newClient.handleAll (Broadcast.deliveriesTo 0 events)).2.symbolMapping [65] = some 7 ∧
    (newClient.handleAll (Broadcast.deliveriesTo 0 events)).2.agentCalls =
      [.handleShutdown [66]] ∧
    (newClient.handleAll (Broadcast.deliveriesTo 0 events)).2.symbolMapping =
      (AdminClient.handleAll { newClient with agentName := [98] }
        (Broadcast.deliveriesTo 1 events)).2.symbolMapping := by
  let symbol : AdminMessage := .newSymbolAdd [65] 7 0
  let shutdown : AdminMessage := .allAgentsShutdown [66]
  let first : List UInt8 := [24, 0, 100, 0, 1, 0, 1, 0] ++ List.replicate 16 0 ++
    [65, 0, 0, 0, 0, 0, 0, 0] ++ [7, 0, 0, 0, 0, 0, 0, 0] ++ List.replicate 8 0
  let second : List UInt8 := [32, 0, 102, 0, 1, 0, 1, 0] ++ List.replicate 16 0 ++
    [66] ++ List.replicate 31 0
  let b : Block := ⟨0, 66, 48, 2, first⟩
  let c : Block := ⟨66, 74, 56, 2, second⟩
  let claim (b : Block) : List Action := [.loadReadOffset b, .storeHeader b, .storeHeader b,
    .storeHeader b, .storeHeader b, .writeToBuffer b]
  let labels : List Action := [.join, .join, .join, .leave 2, .drain 2, .reserve 48 first,
    .reserve 56 second] ++ claim b ++ [.poll 0, .callRelease 0, .releaseStep 0] ++ claim c ++
    [.poll 0, .poll 1, .callRelease 1] ++ List.replicate 6 (.releaseStep 1) ++ [.poll 1]
  have hexec : (execEmits (step .of512) (ChannelRun .of512) (State.emit .of512) []
      State.init labels).any (fun result => decide (
        Broadcast.claims result.1 = [first, second] ∧
        Broadcast.deliveriesTo 0 result.1 = [first, second] ∧
        Broadcast.deliveriesTo 1 result.1 = [first, second] ∧
        (result.2.readers.map Reader.joinOffset).take 2 = [0, 0])) = true := by
    decide +kernel
  have hsymbol : symbol.Encodes first :=
    (symbol.wellFormed_of_all (by decide +kernel)).encodes (fun _ => 0) (by decide +kernel)
  have hshutdown : shutdown.Encodes second :=
    (shutdown.wellFormed_of_all (by decide +kernel)).encodes (fun _ => 0) (by decide +kernel)
  obtain ⟨events, t, hrun, hresult⟩ := exists_emits_of_exec hexec
  obtain ⟨hclaims, hzero, hone, hjoins⟩ := of_decide_eq_true hresult
  have hadmin : ∀ claimed ∈ Broadcast.claims events, ∃ message : AdminMessage,
      message.Encodes claimed := by
    intro claimed hclaimed
    rw [hclaims, List.mem_cons, List.mem_singleton] at hclaimed
    rcases hclaimed with rfl | rfl
    · exact ⟨symbol, hsymbol⟩
    · exact ⟨shutdown, hshutdown⟩
  obtain ⟨-, hagree⟩ := admin_clients_agree hrun hadmin
  have hjoined : ∀ r < 2, ∃ rd, t.readers[r]? = some rd ∧ rd.joinOffset = 0 := by
    intro r hr
    rw [← Option.map_eq_some_iff, ← List.getElem?_map, ← List.getElem?_take_of_lt hr, hjoins]
    rcases Nat.lt_or_ge r 1 with hlt | hge
    · rw [show r = 0 by omega]
      rfl
    · rw [show r = 1 by omega]
      rfl
  obtain ⟨rd, hrd, hjoin⟩ := hjoined 0 (by decide)
  obtain ⟨rd', hrd', hjoin'⟩ := hjoined 1 (by decide)
  refine ⟨events, by rw [hzero]; rfl, by rw [hzero]; decide +kernel, by rw [hzero]; decide +kernel,
    ?_⟩
  exact hagree 0 1 rd rd' newClient { newClient with agentName := [98] } hrd hrd'
    (hjoin.trans hjoin'.symm) (by rw [hzero, hone]) rfl

end MockExchange
