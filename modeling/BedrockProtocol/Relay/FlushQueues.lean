import BedrockProtocol.Relay.LoginSuccess

/-!
# Flushing the queues of the packet relay

A flush moves the whole queue out before it handles the first payload.  A payload that
throws ends the loop, and the payloads behind it are in neither the queue nor a frame.
-/

namespace BedrockProtocol.BedrockRelay

variable {σ : Type} (relay : BedrockRelay σ)

/-- The payloads behind the first one that throws. -/
def unhandled (handle : List UInt8 → Code (RelayState σ) BedrockRelayFrame) :
    List (List UInt8) → RelayState σ → List (List UInt8)
  | [], _ => []
  | mcpePayload :: queued, s =>
      match handle mcpePayload s with
      | (.error _, _) => queued
      | (.ok _, s) => unhandled handle queued s

/-- The queues and the flags that decide about them. -/
structure SameQueues (s s' : RelayState σ) : Prop where
  downQueue : s'.downQueue = s.downQueue
  upQueue : s'.upQueue = s.upQueue
  startRelaying : s'.startRelaying = s.startRelaying
  upstreamReady : s'.upstreamReady = s.upstreamReady

namespace SameQueues

variable {relay} {s s' s'' : RelayState σ}

theorem refl (s : RelayState σ) : SameQueues s s := ⟨rfl, rfl, rfl, rfl⟩

theorem trans (h : SameQueues s s') (h' : SameQueues s' s'') : SameQueues s s'' :=
  ⟨h'.downQueue.trans h.downQueue, h'.upQueue.trans h.upQueue,
    h'.startRelaying.trans h.startRelaying, h'.upstreamReady.trans h.upstreamReady⟩

end SameQueues

theorem sameQueues_foldl (direction : BedrockRelayDirection) (packets : List VersionedGamePacket)
    (f : Forwarding σ) :
    SameQueues f.toRelayState (packets.foldl (relay.appendPacket direction) f).toRelayState := by
  induction packets generalizing f with
  | nil => exact .refl _
  | cons packet packets ih =>
      refine SameQueues.trans ?_ (ih (relay.appendPacket direction f packet))
      cases direction with
      | serverbound => exact ⟨rfl, rfl, rfl, rfl⟩
      | clientbound =>
          rw [appendPacket, appendClientboundPacket]
          split_ifs <;> exact ⟨rfl, rfl, rfl, rfl⟩

theorem sameQueues_forwardPacket (direction : BedrockRelayDirection)
    (packet : VersionedGamePacket) (f : Forwarding σ) :
    SameQueues f.toRelayState (relay.forwardPacket direction packet f).2.toRelayState := by
  rw [forwardPacket]
  split
  · exact ⟨rfl, rfl, rfl, rfl⟩
  · cases relay.handledEvent direction packet f.world with
    | mk result world =>
        cases result with
        | error message => exact ⟨rfl, rfl, rfl, rfl⟩
        | ok event =>
            refine SameQueues.trans ?_ (sameQueues_foldl relay direction event.outcome.1 _)
            exact ⟨rfl, rfl, rfl, rfl⟩

theorem sameQueues_forwardPackets (direction : BedrockRelayDirection)
    (packets : List VersionedGamePacket) (f : Forwarding σ) :
    SameQueues f.toRelayState (relay.forwardPackets direction packets f).2.toRelayState := by
  induction packets generalizing f with
  | nil => exact .refl _
  | cons packet packets ih =>
      have hturn := sameQueues_forwardPacket relay direction packet f
      rw [forwardPackets]
      cases hrun : relay.forwardPacket direction packet f with
      | mk result f' =>
          rw [hrun] at hturn
          cases result with
          | error message => exact hturn
          | ok _ => exact hturn.trans (ih f')

/-- Handling a payload leaves the queues alone. -/
theorem sameQueues_handleMcpe (direction : BedrockRelayDirection) (mcpePayload : List UInt8)
    (s : RelayState σ) : SameQueues s (relay.handleMcpe direction mcpePayload s).2 := by
  rw [handleMcpe]
  split
  · exact .refl s
  rename_i decoded _
  cases relay.handleBatch direction decoded.batch s.world with
  | mk result world =>
      cases result with
      | error message => exact ⟨rfl, rfl, rfl, rfl⟩
      | ok _ =>
          dsimp only
          rw [handleDecodedBatch]
          split
          · exact ⟨rfl, rfl, rfl, rfl⟩
          · have hloop := sameQueues_forwardPackets relay direction decoded.batch
              { toRelayState := { s with world } }
            cases hrun : relay.forwardPackets direction decoded.batch
              { toRelayState := { s with world } } with
            | mk result f =>
                rw [hrun] at hloop
                have hworld : SameQueues s { s with world } := ⟨rfl, rfl, rfl, rfl⟩
                cases result with
                | error message => exact hworld.trans hloop
                | ok _ => exact hworld.trans hloop

section Loop

variable {relay} {handle : List UInt8 → Code (RelayState σ) BedrockRelayFrame}
  {queues : RelayState σ → Bool}

/-- The loop leaves the queues alone while payloads are not put back. -/
theorem sameQueues_handleAll
    (hqueues : ∀ s s', SameQueues s s' → queues s' = queues s)
    (hhandle : ∀ mcpePayload s, queues s = false → SameQueues s (handle mcpePayload s).2)
    (queued : List (List UInt8)) (s : RelayState σ) (hs : queues s = false) :
    SameQueues s (handleAll handle queued s).2 := by
  induction queued generalizing s with
  | nil => exact .refl s
  | cons mcpePayload queued ih =>
      have hturn := hhandle mcpePayload s hs
      rw [handleAll]
      cases hrun : handle mcpePayload s with
      | mk result s' =>
          rw [hrun] at hturn
          cases result with
          | error message => exact hturn
          | ok frame =>
              have hrest := hturn.trans (ih s' ((hqueues s s' hturn).trans hs))
              dsimp only
              cases hrun' : handleAll handle queued s' with
              | mk result' s'' =>
                  rw [hrun'] at hrest
                  cases result' <;> exact hrest

/-- A payload is left unhandled only when the loop throws. -/
theorem handleAll_throws (queued : List (List UInt8)) (s : RelayState σ)
    (h : unhandled handle queued s ≠ []) : ∃ message, (handleAll handle queued s).1 =
      .error message := by
  induction queued generalizing s with
  | nil => exact absurd rfl h
  | cons mcpePayload queued ih =>
      rw [unhandled] at h
      rw [handleAll]
      cases hrun : handle mcpePayload s with
      | mk result s' =>
          rw [hrun] at h
          cases result with
          | error message => exact ⟨message, rfl⟩
          | ok frame =>
              obtain ⟨message, hthrows⟩ := ih s' h
              dsimp only
              cases hrun' : handleAll handle queued s' with
              | mk result' s'' =>
                  rw [hrun'] at hthrows
                  cases result' with
                  | error message' => exact ⟨message', rfl⟩
                  | ok frames => cases hthrows

/-- Payloads that are put back do not throw. -/
theorem handleAll_puts_back
    (hback : ∀ mcpePayload s, queues s = true →
      ∃ frame s', handle mcpePayload s = (.ok frame, s') ∧ queues s' = true)
    (queued : List (List UInt8)) (s : RelayState σ) (hs : queues s = true) :
    ∃ frames, (handleAll handle queued s).1 = .ok frames := by
  induction queued generalizing s with
  | nil => exact ⟨[], rfl⟩
  | cons mcpePayload queued ih =>
      obtain ⟨frame, s', hrun, hs'⟩ := hback mcpePayload s hs
      obtain ⟨frames, hframes⟩ := ih s' hs'
      rw [handleAll, hrun]
      dsimp only
      cases hrest : handleAll handle queued s' with
      | mk result s'' =>
          rw [hrest] at hframes
          cases result with
          | error message => cases hframes
          | ok frames => exact ⟨frame :: frames, rfl⟩

/-- A flush that throws keeps what it has not handled only when that is nothing. -/
theorem keeps_unhandled_iff (queue : RelayState σ → List (List UInt8))
    (queues : RelayState σ → Bool) (hqueue : ∀ s s', SameQueues s s' → queue s' = queue s)
    (hqueues : ∀ s s', SameQueues s s' → queues s' = queues s)
    (hhandle : ∀ mcpePayload s, queues s = false → SameQueues s (handle mcpePayload s).2)
    (hback : ∀ mcpePayload s, queues s = true →
      ∃ frame s', handle mcpePayload s = (.ok frame, s') ∧ queues s' = true)
    (queued : List (List UInt8)) {s : RelayState σ} (hs : queue s = []) :
    ((∃ message, (handleAll handle queued s).1 = .error message) →
      queue (handleAll handle queued s).2 = unhandled handle queued s) ↔
      unhandled handle queued s = [] := by
  cases hput : queues s with
  | true =>
      obtain ⟨frames, hframes⟩ := handleAll_puts_back hback queued s hput
      refine ⟨fun _ ↦ ?_, fun _ ↦ ?_⟩
      · by_contra hne
        obtain ⟨message, hthrows⟩ := handleAll_throws queued s hne
        rw [hframes] at hthrows
        cases hthrows
      · rintro ⟨message, hthrows⟩
        rw [hframes] at hthrows
        cases hthrows
  | false =>
      have hsame := hqueue _ _ (sameQueues_handleAll hqueues hhandle queued s hput)
      rw [hsame, hs]
      refine ⟨fun h ↦ ?_, fun h _ ↦ h.symm⟩
      by_contra hne
      exact hne (h (handleAll_throws queued s hne)).symm

end Loop

/-- Of either queue, the payloads behind one that throws are lost: a flush that throws
leaves them in the queue exactly when there are none. -/
theorem flush_keeps_unhandled_iff (s : RelayState σ) :
    (((∃ message, (relay.flushDownQueue s).1 = .error message) →
        (relay.flushDownQueue s).2.downQueue =
          unhandled relay.handleClientboundMcpe s.downQueue { s with downQueue := [] }) ↔
      unhandled relay.handleClientboundMcpe s.downQueue { s with downQueue := [] } = []) ∧
    (((∃ message, (relay.flushUpQueue s).1 = .error message) →
        (relay.flushUpQueue s).2.upQueue =
          unhandled relay.handleServerboundMcpe s.upQueue { s with upQueue := [] }) ↔
      unhandled relay.handleServerboundMcpe s.upQueue { s with upQueue := [] } = []) := by
  constructor
  · refine keeps_unhandled_iff RelayState.downQueue (fun s ↦ !s.startRelaying) (fun s s' h ↦ h.downQueue)
      (fun s s' h ↦ congrArg (!·) h.startRelaying) (fun mcpePayload s hs ↦ ?_)
      (fun mcpePayload s hs ↦ ?_) s.downQueue rfl
    · rw [handleClientboundMcpe, hs]
      exact sameQueues_handleMcpe relay .clientbound mcpePayload s
    · rw [handleClientboundMcpe, if_pos hs]
      exact ⟨_, _, rfl, hs⟩
  · refine keeps_unhandled_iff RelayState.upQueue
      (fun s ↦ s.startRelaying && !s.upstreamReady) (fun s s' h ↦ h.upQueue)
      (fun s s' h ↦ by rw [h.startRelaying, h.upstreamReady]) (fun mcpePayload s hs ↦ ?_)
      (fun mcpePayload s hs ↦ ?_) s.upQueue rfl
    · rw [handleServerboundMcpe, hs]
      exact sameQueues_handleMcpe relay .serverbound mcpePayload s
    · rw [handleServerboundMcpe, if_pos hs]
      exact ⟨_, _, rfl, hs⟩

/-- An empty payload throws, and the one behind it is lost. -/
theorem flush_loses_payload :
    ¬ (∀ (relay : BedrockRelay Unit) (s : RelayState Unit),
      (∃ message, (relay.flushDownQueue s).1 = .error message) →
        (relay.flushDownQueue s).2.downQueue =
          unhandled relay.handleClientboundMcpe s.downQueue { s with downQueue := [] }) := by
  intro hall
  have hkept := hall plainRelay
    { downQueue := [[], [0xfe, 0xff, 2, 9, 1]], startRelaying := true, world := () } ⟨_, rfl⟩
  revert hkept
  decide

end BedrockProtocol.BedrockRelay
