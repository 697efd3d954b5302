import BedrockProtocol.Lib.Interleaving
import Mathlib.Data.Finset.Card
import Mathlib.Data.List.AList

/-!
# Counting the clients

`BedrockServer.hpp` and `RakNetServer.cpp` as far as they keep the tables of
peers and connections: the handlers of opened and closed peers, `close`,
`listen`, and the player's own `close`.  The RakNet worker and any thread of the
application run them in pieces, one critical section at a time; where listeners
run, the application may call any of these methods.
-/

namespace BedrockProtocol.ClientAccounting

/-! ## Tables -/

structure RakNetServerPeer where
  address : String
  port : ℕ
  clientGuid : ℕ
  deriving DecidableEq, Repr

/-- `RakNetServer::peerKey` and `BedrockServer::connectionKey`. -/
def connectionKey (peer : RakNetServerPeer) : String := peer.address ++ ":" ++ toString peer.port

def playerKey (peer : RakNetServerPeer) : String :=
  connectionKey peer ++ "#" ++ toString peer.clientGuid

/-- The tables of the native server and of the server.  A connection is its peer;
`sessions_` changes together with `connections_` and has the same keys. -/
structure Tables where
  peers : AList fun _ : String ↦ RakNetServerPeer
  connections : AList fun _ : String ↦ RakNetServerPeer
  closedPlayers : List String
  clientCount : ℤ
  closing : Bool
  running : Bool

/-- The entry of the peer's endpoint, if it has the peer's GUID. -/
def lookupPeer (table : AList fun _ : String ↦ RakNetServerPeer) (peer : RakNetServerPeer) :
    Option RakNetServerPeer :=
  (table.lookup (connectionKey peer)).filter fun found ↦ found.clientGuid = peer.clientGuid

/-! ## Instructions -/

inductive Instr
  /-- Listeners run: code of the application, which may call any method. -/
  | listeners
  /-- `handleNativePacket` on a new incoming connection. -/
  | acceptPeer (peer : RakNetServerPeer)
  | openConnection (peer : RakNetServerPeer)
  | reopenPlayer (peer : RakNetServerPeer)
  | addConnection (peer : RakNetServerPeer)
  /-- `handleNativePacket` on a disconnect message, and `closePeerNow`. -/
  | dropPeer (peer : RakNetServerPeer)
  | closePeer (peer : RakNetServerPeer)
  | handlePeerClosed (peer : RakNetServerPeer)
  | markClosed (connection : RakNetServerPeer)
  | removeConnection (peer : RakNetServerPeer)
  | decrementCount
  | closePlayer (connection : RakNetServerPeer)
  | startClosing
  | clearConnections
  | startListening
  | startRunning
  | finishShutdown
  deriving DecidableEq, Repr

/-- One critical section, and what follows it. -/
def perform (s : Tables) : Instr → Tables × List Instr
  | .listeners => (s, [])
  | .acceptPeer peer =>
      match lookupPeer s.peers peer with
      | some _ => (s, [])
      | none =>
          ({ s with peers := s.peers.insert (connectionKey peer) peer }, [.openConnection peer])
  | .openConnection peer =>
      (s, if s.closing then [] else [.reopenPlayer peer, .addConnection peer])
  | .reopenPlayer peer =>
      ({ s with closedPlayers := s.closedPlayers.filter (· ≠ playerKey peer) }, [])
  | .addConnection peer =>
      if s.closing then (s, [])
      else
        ({ s with
            connections := s.connections.insert (connectionKey peer) peer
            clientCount := s.clientCount + 1 },
          [.listeners])
  | .dropPeer peer =>
      match lookupPeer s.peers peer with
      | none => (s, [])
      | some closedPeer =>
          ({ s with peers := s.peers.erase (connectionKey peer) }, [.handlePeerClosed closedPeer])
  | .closePeer peer => (s, if s.running then [.dropPeer peer] else [])
  | .handlePeerClosed peer =>
      (s, match lookupPeer s.connections peer with
        | none => []
        | some connection => [.markClosed connection, .removeConnection peer])
  | .markClosed connection =>
      if playerKey connection ∈ s.closedPlayers then (s, [])
      else ({ s with closedPlayers := playerKey connection :: s.closedPlayers }, [.listeners])
  | .removeConnection peer =>
      match lookupPeer s.connections peer with
      | none => (s, [])
      | some _ =>
          ({ s with connections := s.connections.erase (connectionKey peer) }, [.decrementCount])
  | .decrementCount => ({ s with clientCount := s.clientCount - 1 }, [])
  | .closePlayer connection =>
      if playerKey connection ∈ s.closedPlayers then (s, [])
      else
        ({ s with closedPlayers := playerKey connection :: s.closedPlayers },
          [.listeners, .closePeer connection])
  | .startClosing => ({ s with closing := true }, [])
  | .clearConnections => ({ s with connections := ∅, clientCount := 0 }, [])
  | .startListening => ({ s with closing := false }, [.startRunning])
  | .startRunning => (if s.running then s else { s with peers := ∅, running := true }, [])
  | .finishShutdown => ({ s with peers := ∅, running := false }, [])

/-! ## Runs -/

inductive Call
  | close
  | listen
  | closePeer (peer : RakNetServerPeer)
  | closePlayer (connection : RakNetServerPeer)

def Call.body : Call → List Instr
  | .close => [.startClosing, .clearConnections]
  | .listen => [.startListening]
  | .closePeer peer => [.closePeer peer]
  | .closePlayer connection => [.closePlayer connection]

abbrev State := Threads Tables Instr

/-- The RakNet worker. -/
def worker : ℕ := 0

inductive Label
  /-- The worker receives the message of a new connection. -/
  | incoming (peer : RakNetServerPeer)
  /-- The worker receives a disconnect message, or a scheduled close is due. -/
  | closed (peer : RakNetServerPeer)
  /-- The deadline of the shutdown has passed. -/
  | shutdown
  /-- The application calls a method on thread `t`. -/
  | call (t : ℕ) (call : Call)
  /-- Thread `t` runs its next critical section. -/
  | exec (t : ℕ)
  /-- A listener on thread `t` throws; the frames up to the next one are left. -/
  | throwing (t : ℕ)

/-- Thread `t` is in code of the application. -/
def inApplication (t : ℕ) : List Instr → Bool
  | [] => t ≠ worker
  | instr :: _ => instr = .listeners

/-- A label that is not possible changes nothing. -/
def step (s : State) : Label → State
  | .incoming peer => s.start worker [.acceptPeer peer]
  | .closed peer => s.start worker [.dropPeer peer]
  | .shutdown => s.start worker [.finishShutdown]
  | .call t call => if inApplication t (s.todo t) then s.call t call.body else s
  | .exec t => s.exec (fun _ tables instr ↦ some (perform tables instr)) t
  | .throwing t =>
      match s.todo t with
      | .listeners :: rest => s.resume t s.shared (rest.dropWhile (· ≠ .listeners))
      | _ => s

/-- A server that nobody called yet. -/
def constructed : State where
  shared := ⟨∅, ∅, [], 0, false, false⟩
  todo := fun _ ↦ []

/-! ## Accounting -/

/-- The counter is right whenever nothing is going on, and never negative. -/
def Accounted (s : State) : Prop :=
  0 ≤ s.shared.clientCount ∧
    ((∀ t, s.todo t = []) → s.shared.clientCount = s.shared.connections.entries.length)

/-- A thread has removed a connection and not yet counted it. -/
def Forgetting (s : State) (t : ℕ) : Prop := .decrementCount ∈ s.todo t

/-- A connection is added only under a key that is free, and the tables are cleared
only while no thread is between removing a connection and counting that. -/
def Careful (s : State) : Label → Prop
  | .exec t =>
      match (s.todo t).head? with
      | some (.addConnection peer) =>
          s.shared.closing = false → s.shared.connections.lookup (connectionKey peer) = none
      | some .clearConnections => ∀ u, ¬ Forgetting s u
      | _ => True
  | _ => True

/-- The counter is ahead of the table by the removals that are not yet counted. -/
structure Counted (s : State) : Prop where
  tail : ∀ t, .decrementCount ∉ (s.todo t).tail
  count : ∃ forgetting : Finset ℕ, (∀ t, t ∈ forgetting ↔ Forgetting s t) ∧
    s.shared.clientCount = s.shared.connections.entries.length + forgetting.card

theorem Counted.accounted {s : State} (h : Counted s) : Accounted s := by
  obtain ⟨forgetting, hmem, hcount⟩ := h.count
  refine ⟨by omega, fun hidle ↦ ?_⟩
  have hnone : forgetting = ∅ := by
    rw [Finset.eq_empty_iff_forall_notMem]
    intro t ht
    have hforget := (hmem t).mp ht
    rw [Forgetting, hidle t] at hforget
    cases hforget
  rw [hcount, hnone]
  simp

theorem counted_constructed : Counted constructed :=
  ⟨fun _ ↦ List.not_mem_nil, ∅, fun _ ↦ by simp [Forgetting, constructed], rfl⟩

section Steps

variable {s : State} {t : ℕ} {i : Instr} {rest instrs : List Instr} {tables : Tables}

theorem Counted.notMem_tail (h : Counted s) (htodo : s.todo t = i :: rest) :
    .decrementCount ∉ rest := by
  simpa [htodo] using h.tail t

/-- A thread goes on: what it may owe stays at the head, and the counter keeps up. -/
theorem Counted.resume (h : Counted s) (htail : .decrementCount ∉ instrs.tail)
    (hcount : ∀ forgetting : Finset ℕ, (∀ u, u ∈ forgetting ↔ Forgetting s u) →
      s.shared.clientCount = s.shared.connections.entries.length + forgetting.card →
      tables.clientCount = tables.connections.entries.length +
        (if .decrementCount ∈ instrs then insert t (forgetting.erase t)
          else forgetting.erase t).card) :
    Counted (s.resume t tables instrs) := by
  obtain ⟨forgetting, hmem, hbefore⟩ := h.count
  refine ⟨fun u ↦ ?_, _, fun u ↦ ?_, hcount forgetting hmem hbefore⟩
  · by_cases hu : u = t
    · rwa [hu, Threads.resume_todo_self]
    · rw [Threads.resume_todo_of_ne _ hu]
      exact h.tail u
  · by_cases hu : u = t
    · subst hu
      rw [Forgetting, Threads.resume_todo_self]
      split <;> simp_all
    · rw [Forgetting, Threads.resume_todo_of_ne _ hu, ← Forgetting, ← hmem u]
      split <;> simp [hu]

/-- Nothing that is owed comes or goes, and the table keeps its size. -/
theorem Counted.resume_quiet (h : Counted s) (ht : ¬ Forgetting s t)
    (hinstrs : .decrementCount ∉ instrs)
    (hsame : tables.clientCount = s.shared.clientCount ∧
      tables.connections = s.shared.connections) :
    Counted (s.resume t tables instrs) := by
  refine h.resume (fun hmem ↦ hinstrs (List.mem_of_mem_tail hmem)) fun forgetting hmem hbefore ↦ ?_
  have hout : t ∉ forgetting := fun hin ↦ ht ((hmem t).mp hin)
  rw [if_neg hinstrs, Finset.erase_eq_of_notMem hout, hsame.1, hsame.2, hbefore]

theorem length_entries_erase {table : AList fun _ : String ↦ RakNetServerPeer} {key : String}
    (h : key ∈ table) : (table.erase key).entries.length + 1 = table.entries.length := by
  have hkeys (table : AList fun _ : String ↦ RakNetServerPeer) :
      table.entries.length = table.keys.length := by
    rw [AList.keys, List.keys, List.length_map]
  rw [hkeys, hkeys, AList.keys_erase, List.length_erase_of_mem (AList.mem_keys.mp h)]
  have hpos := List.length_pos_of_mem (AList.mem_keys.mp h)
  omega

theorem mem_of_lookupPeer {table : AList fun _ : String ↦ RakNetServerPeer}
    {peer found : RakNetServerPeer} (h : lookupPeer table peer = some found) :
    connectionKey peer ∈ table := by
  rw [← AList.lookup_isSome]
  unfold lookupPeer at h
  cases hlookup : table.lookup (connectionKey peer) with
  | none =>
      rw [hlookup] at h
      cases h
  | some _ => rfl

/-- The sections that touch the table of connections or its counter. -/
def Instr.counts : Instr → Bool
  | .addConnection _ => true
  | .removeConnection _ => true
  | .decrementCount => true
  | .clearConnections => true
  | _ => false

theorem perform_of_not_counts (hi : i.counts = false) (h : perform s.shared i = (tables, instrs)) :
    .decrementCount ∉ instrs ∧ tables.clientCount = s.shared.clientCount ∧
      tables.connections = s.shared.connections := by
  cases i with
  | addConnection | removeConnection | decrementCount | clearConnections => cases hi
  | _ =>
      simp only [perform] at h
      repeat' split at h
      all_goals cases h
      all_goals refine ⟨?_, rfl, rfl⟩
      all_goals simp

theorem Counted.exec (h : Counted s) (htodo : s.todo t = i :: rest)
    (hcareful : Careful s (.exec t)) (hperform : perform s.shared i = (tables, instrs)) :
    Counted (s.resume t tables (instrs ++ rest)) := by
  have hrest := h.notMem_tail htodo
  cases i with
  | addConnection peer =>
      have hforget : ¬ Forgetting s t := by simpa [Forgetting, htodo] using hrest
      simp only [Careful, htodo, List.head?_cons] at hcareful
      simp only [perform] at hperform
      split at hperform
      · cases hperform
        exact h.resume_quiet hforget hrest ⟨rfl, rfl⟩
      · cases hperform
        rename_i hopen
        have hfree := AList.lookup_eq_none.mp (hcareful (by simpa using hopen))
        refine h.resume hrest fun forgetting hmem hbefore ↦ ?_
        have hout : t ∉ forgetting := fun hin ↦ hforget ((hmem t).mp hin)
        rw [if_neg (by simpa using hrest), Finset.erase_eq_of_notMem hout,
          AList.entries_insert_of_notMem hfree, hbefore]
        push_cast [List.length_cons]
        omega
  | removeConnection peer =>
      have hforget : ¬ Forgetting s t := by simpa [Forgetting, htodo] using hrest
      simp only [perform] at hperform
      split at hperform
      · cases hperform
        exact h.resume_quiet hforget hrest ⟨rfl, rfl⟩
      · cases hperform
        rename_i hfound
        have hlength := length_entries_erase (mem_of_lookupPeer hfound)
        refine h.resume hrest fun forgetting hmem hbefore ↦ ?_
        have hout : t ∉ forgetting := fun hin ↦ hforget ((hmem t).mp hin)
        rw [if_pos (by simp), Finset.erase_eq_of_notMem hout, Finset.card_insert_of_notMem hout]
        push_cast
        omega
  | decrementCount =>
      cases hperform
      refine h.resume (fun hmem ↦ hrest (List.mem_of_mem_tail hmem)) fun forgetting hmem hbefore ↦ ?_
      have hin : t ∈ forgetting := (hmem t).mpr (by simp [Forgetting, htodo])
      have hcard := Finset.card_erase_add_one hin
      rw [if_neg (by simpa using hrest)]
      simp only
      omega
  | clearConnections =>
      cases hperform
      simp only [Careful, htodo, List.head?_cons] at hcareful
      refine h.resume (fun hmem ↦ hrest (List.mem_of_mem_tail hmem)) fun forgetting hmem hbefore ↦ ?_
      have hnone : forgetting = ∅ := by
        rw [Finset.eq_empty_iff_forall_notMem]
        exact fun u hu ↦ hcareful u ((hmem u).mp hu)
      rw [if_neg (by simpa using hrest), hnone]
      rfl
  | _ =>
      obtain ⟨hinstrs, hsame⟩ := perform_of_not_counts rfl hperform
      refine h.resume_quiet (by simpa [Forgetting, htodo] using hrest) ?_ hsame
      simp [hinstrs, hrest]

theorem Call.notMem_body (call : Call) : .decrementCount ∉ call.body := by
  cases call <;> simp [Call.body]

theorem Counted.start (h : Counted s) (hinstrs : .decrementCount ∉ instrs) :
    Counted (s.start worker instrs) := by
  unfold Threads.start
  split
  · rename_i hidle
    refine h.resume_quiet ?_ hinstrs ⟨rfl, rfl⟩
    simp [Forgetting, List.isEmpty_iff.mp hidle]
  · exact h

theorem Counted.step (h : Counted s) (label : Label) (hcareful : Careful s label) :
    Counted (step s label) := by
  cases label with
  | incoming peer => exact h.start (by simp)
  | closed peer => exact h.start (by simp)
  | shutdown => exact h.start (by simp)
  | call t call =>
      simp only [ClientAccounting.step]
      split
      · rename_i happ
        have hforget : ¬ Forgetting s t := by
          rw [Forgetting]
          cases htodo : s.todo t with
          | nil => simp
          | cons i rest =>
              rw [htodo] at happ
              have hi : i = .listeners := by simpa [inApplication] using happ
              simpa [hi] using h.notMem_tail htodo
        refine h.resume_quiet hforget ?_ ⟨rfl, rfl⟩
        simpa [call.notMem_body, Forgetting] using hforget
      · exact h
  | exec t =>
      simp only [ClientAccounting.step, Threads.exec]
      split
      · exact h
      · exact h.exec ‹_› hcareful rfl
  | throwing t =>
      simp only [ClientAccounting.step]
      split
      · rename_i rest htodo
        have hrest := h.notMem_tail htodo
        refine h.resume_quiet (by simpa [Forgetting, htodo] using hrest) ?_ ⟨rfl, rfl⟩
        exact fun hmem ↦ hrest ((List.dropWhile_sublist _).subset hmem)
      · exact h

end Steps

/-- In every run that is careful the counter agrees with the table of connections. -/
theorem accounted_of_careful (labels : List Label)
    (hcareful : AllSteps step Careful constructed labels) :
    Accounted (run step constructed labels) := by
  have hcounted : Counted (run step constructed labels) :=
    invariant_run (fun _ label h hc ↦ h.step label hc) counted_constructed hcareful
  exact hcounted.accounted

/-! ## Three runs -/

/-- The thread that a label is about. -/
def Label.thread : Label → ℕ
  | .incoming _ | .closed _ | .shutdown => worker
  | .call t _ | .exec t | .throwing t => t

theorem step_todo_of_ne {s : State} {t : ℕ} {label : Label} (h : t ≠ label.thread) :
    (step s label).todo t = s.todo t := by
  cases label with
  | incoming | closed | shutdown =>
      simp only [step, Threads.start]
      split
      · exact Threads.resume_todo_of_ne _ h _ _
      · rfl
  | call u call =>
      simp only [step]
      split
      · exact Threads.resume_todo_of_ne _ h _ _
      · rfl
  | exec u =>
      simp only [step, Threads.exec]
      split
      · rfl
      · exact Threads.resume_todo_of_ne _ h _ _
  | throwing u =>
      simp only [step]
      split
      · exact Threads.resume_todo_of_ne _ h _ _
      · rfl

theorem run_todo_of_ne {s : State} {t : ℕ} {labels : List Label}
    (h : ∀ label ∈ labels, t ≠ label.thread) : (run step s labels).todo t = s.todo t := by
  induction labels generalizing s with
  | nil => rfl
  | cons label labels ih =>
      have hrest : (run step (step s label) labels).todo t = (step s label).todo t :=
        ih fun other hother ↦ h other (List.mem_cons_of_mem _ hother)
      exact hrest.trans (step_todo_of_ne (h label List.mem_cons_self))

/-- `Careful` as far as the given threads go. -/
def carefulAmong (threads : List ℕ) (s : State) : Label → Bool
  | .exec t =>
      match (s.todo t).head? with
      | some (.addConnection peer) =>
          s.shared.closing || (s.shared.connections.lookup (connectionKey peer)).isNone
      | some .clearConnections => threads.all fun u ↦ .decrementCount ∉ s.todo u
      | _ => true
  | _ => true

theorem careful_of_carefulAmong {threads : List ℕ} {s : State} {label : Label}
    (hidle : ∀ t ∉ threads, s.todo t = []) (h : carefulAmong threads s label = true) :
    Careful s label := by
  cases label with
  | exec t =>
      simp only [carefulAmong] at h
      simp only [Careful]
      split at h
      · rename_i peer hhead
        intro hopen
        simpa [hopen, AList.lookup_eq_none] using h
      · intro u hforget
        by_cases hu : u ∈ threads
        · have hnone := List.all_eq_true.mp h u hu
          exact absurd hforget (by simpa [Forgetting] using hnone)
        · rw [Forgetting, hidle u hu] at hforget
          cases hforget
      · trivial
  | _ => trivial

/-- Where only some threads run, only these have to be looked at. -/
theorem allSteps_careful {threads : List ℕ} {s : State} {labels : List Label}
    (hthreads : ∀ label ∈ labels, label.thread ∈ threads) (hidle : ∀ t ∉ threads, s.todo t = [])
    (h : AllSteps step (fun s label ↦ carefulAmong threads s label = true) s labels) :
    AllSteps step Careful s labels := by
  induction labels generalizing s with
  | nil => trivial
  | cons label labels ih =>
      refine ⟨careful_of_carefulAmong hidle h.1,
        ih (fun other hother ↦ hthreads other (List.mem_cons_of_mem _ hother)) ?_ h.2⟩
      intro t ht
      have hne : t ≠ label.thread := by
        rintro rfl
        exact ht (hthreads label List.mem_cons_self)
      rw [step_todo_of_ne hne, hidle t ht]

def peerOne : RakNetServerPeer := ⟨"10.0.0.7", 50000, 1⟩

/-- The same endpoint under another GUID. -/
def peerTwo : RakNetServerPeer := ⟨"10.0.0.7", 50000, 2⟩

def opening (peer : RakNetServerPeer) : List Label :=
  .incoming peer :: List.replicate 5 (.exec worker)

def closing (peer : RakNetServerPeer) : List Label :=
  .closed peer :: List.replicate 6 (.exec worker)

/-- The endpoint is reused before its first client is closed. -/
def reusing : List Label :=
  .call 1 .listen :: .exec 1 :: .exec 1 :: opening peerOne ++ opening peerTwo

/-- The server is closed while the worker handles a disconnect message. -/
def closingTwice : List Label :=
  .call 1 .listen :: .exec 1 :: .exec 1 :: opening peerOne ++
    (closing peerOne).dropLast ++ .call 1 .close :: .exec 1 :: .exec 1 :: [.exec worker]

/-- The count stays ahead of the table, or falls below zero. -/
theorem counter_goes_wrong :
    ((∀ t, (run step constructed reusing).todo t = []) ∧
      (run step constructed reusing).shared.clientCount = 2 ∧
      (run step constructed reusing).shared.connections.entries.length = 1) ∧
    (run step constructed closingTwice).shared.clientCount = -1 := by
  refine ⟨⟨fun t ↦ ?_, by decide +kernel, by decide +kernel⟩, by decide +kernel⟩
  by_cases hzero : t = 0
  · subst hzero
    decide +kernel
  by_cases hone : t = 1
  · subst hone
    decide +kernel
  rw [run_todo_of_ne]
  · rfl
  · have hthreads : ∀ label ∈ reusing, label.thread = 0 ∨ label.thread = 1 := by decide
    intro label hlabel hsame
    have := hthreads label hlabel
    omega

/-- A client leaves, its endpoint is reused, and the server is closed. -/
def reusingAfterClosing : List Label :=
  .call 1 .listen :: .exec 1 :: .exec 1 :: opening peerOne ++ closing peerOne ++
    opening peerTwo ++ [.call 1 .close, .exec 1, .exec 1]

theorem accounted_of_careful_reusingAfterClosing :
    (run step constructed (reusingAfterClosing.take 22)).shared.clientCount = 1 ∧
      Accounted (run step constructed reusingAfterClosing) :=
  ⟨by decide +kernel,
    accounted_of_careful reusingAfterClosing
      (allSteps_careful (by decide : ∀ label ∈ reusingAfterClosing, label.thread ∈ [0, 1])
        (fun _ _ ↦ rfl) (by decide +kernel))⟩

end BedrockProtocol.ClientAccounting
