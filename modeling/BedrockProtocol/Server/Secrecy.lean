import BedrockProtocol.Server.OutboundMutex
import Mathlib.Data.List.TakeWhile

/-!
# Secrecy after the handshake

Once the handshake of a login was handed to `sendReliable`, every payload of the
session should be one of the payloads that the session's cipher stream produces,
with the checksum counters 0, 1, 2, ….  That holds along every run that keeps out
of a few places where the code does not see to it: a client that asks for the
network settings again is answered in the clear, a second login starts a new
stream, a payload can be built between the handshake and the moment encryption
is switched on, and a status that is set back makes a session writable again
whose counters have run ahead.
-/

namespace BedrockProtocol.BedrockServer

open BedrockEncryption

section Secrecy

variable {σ Key ν : Type}

/-! ## The property -/

/-- The handshake was handed over. -/
def Handed (s : Session σ ν) : Prop := ∃ payload ∈ s.wire, payload.path = .login

/-- What was handed over after the handshake. -/
def afterHandshake (wire : List WirePayload) : List WirePayload :=
  (wire.dropWhile fun payload ↦ payload.path ≠ .login).tail

/-- The stream that the session's keys start. -/
def startedStream (ctx : Context σ Key ν) (s : Session σ ν) :
    Except String (BedrockCipherStream σ) :=
  createCipherStream ctx.evp ctx.configuredServerProtocolVersion s.encryptionKeys.secretKeyBytes
    s.encryptionKeys.iv16 .encrypt

/-- The payloads of one encrypted stream from the counter 0 on. -/
def Encrypts (ctx : Context σ Key ν) (s : Session σ ν) (payloads : List WirePayload)
    (sender : Endpoint σ) : Prop :=
  ∃ stream batches encrypted, startedStream ctx s = .ok stream ∧
    sendAll ctx.sha256 ctx.evp s.encryptionKeys.secretKeyBytes ⟨stream, 0⟩ batches =
      .ok (encrypted, sender) ∧
    payloads.map WirePayload.bytes = encrypted.map (0xfe :: ·)

/-- Whatever follows the handshake is encrypted, in the order of the counters. -/
def Secret (ctx : Context σ Key ν) (s : Session σ ν) : Prop :=
  Handed s → ∃ sender, Encrypts ctx s (afterHandshake s.wire) sender

/-! ## The condition -/

/-- Nothing is handed over any more. -/
def Dead (s : Session σ ν) : Prop := s.hasWritablePlayer = false

/-- The next instruction of a thread stays clear of the places where secrecy is
lost. -/
def CarefulNext (ctx : Context σ Key ν) (s : Session σ ν) : List Instr → Prop
  | .sendPreCompression _ _ :: _ => ¬ Handed s
  | .installKeys _ :: _ => ¬ Handed s
  | .storeStatus nextStatus :: _ => s.status = .disconnected → nextStatus = .disconnected
  | .build _ packets _ :: _ =>
      (Handed s → s.encryptionEnabled = false → Dead s) ∧ refuses ctx s packets = false
  | _ => True

def Careful (ctx : Context σ Key ν) (s : State σ ν) : Label → Prop
  | .reopened writable => writable = false
  | .exec t => CarefulNext ctx s.session (s.todo t)
  | _ => True

instance (s : Session σ ν) : Decidable (Handed s) :=
  inferInstanceAs (Decidable (∃ payload ∈ s.wire, payload.path = .login))

instance (s : Session σ ν) : Decidable (Dead s) :=
  inferInstanceAs (Decidable (s.hasWritablePlayer = false))

instance (ctx : Context σ Key ν) (s : Session σ ν) (todo : List Instr) :
    Decidable (CarefulNext ctx s todo) := by
  unfold CarefulNext
  split <;> infer_instance

instance (ctx : Context σ Key ν) (s : State σ ν) (label : Label) :
    Decidable (Careful ctx s label) := by
  unfold Careful
  split <;> infer_instance

/-! ## The invariant -/

/-- The keys of a login are installed and their stream has not been used. -/
def Keyed (ctx : Context σ Key ν) (s : Session σ ν) : Prop :=
  s.hasEncryptionKeys = true ∧ ∃ stream, startedStream ctx s = .ok stream ∧
    s.encryptStream = some stream

/-- How far the worker is with a login or an answer in the clear. -/
inductive Progress (ctx : Context σ Key ν) (s : Session σ ν) : List Phase → Prop
  | idle : Progress ctx s []
  | listener {rest : List Phase} (h : Progress ctx s rest) : Progress ctx s (.listener :: rest)
  | dispatch : Progress ctx s [.dispatch]
  | settings (handed : ¬ Handed s) : Progress ctx s [.settings]
  | shaking (handed : ¬ Handed s) (keyed : Keyed ctx s) : Progress ctx s [.shaking, .enabling]
  | enabling (enabled : s.encryptionEnabled = false) (keyed : Keyed ctx s)
      (handed : Handed s ∨ Dead s) : Progress ctx s [.enabling]
  | starting (enabled : s.encryptionEnabled = false) (keyed : Keyed ctx s) (handed : Handed s) :
      Progress ctx s [.starting]

/-- The payload that a thread is about to hand over. -/
def flight : List Instr → Option Instr
  | [] => none
  | i :: _ => if i.inFlight then some i else none

/-- The payload is the next one of the stream. -/
def NextPayload (ctx : Context σ Key ν) (s : Session σ ν) (sender current : Endpoint σ)
    (payload : WirePayload) : Prop :=
  ∃ batch encrypted sender', send ctx.sha256 ctx.evp s.encryptionKeys.secretKeyBytes sender batch =
      .ok (encrypted, sender') ∧
    payload.bytes = 0xfe :: encrypted ∧ (Dead s ∨ sender' = current)

/-- Between the handshake and encryption nothing is on its way. -/
def Waiting (s : State σ ν) : Prop :=
  s.session.encryptionEnabled = false ∧ afterHandshake s.session.wire = [] ∧
  ∀ t i, flight (s.todo t) = some i → ∃ payload, i = .checkWritable payload ∧ Dead s.session

/-- Encryption is on: the stream stands where the last payload handed over left it,
or one payload further. -/
def Running (ctx : Context σ Key ν) (s : State σ ν) (sender : Endpoint σ) : Prop :=
  s.session.encryptionEnabled = true ∧ s.session.hasEncryptionKeys = true ∧
  ∃ stream, s.session.encryptStream = some stream ∧
    (∀ t payload, flight (s.todo t) = some (.sendReliable payload) →
      NextPayload ctx s.session sender ⟨stream, s.session.sendCounter⟩ payload) ∧
    (∀ t payload, flight (s.todo t) = some (.checkWritable payload) →
      Dead s.session ∨
        NextPayload ctx s.session sender ⟨stream, s.session.sendCounter⟩ payload) ∧
    ((∀ t, flight (s.todo t) = none) →
      Dead s.session ∨ sender = ⟨stream, s.session.sendCounter⟩)

def Transcript (ctx : Context σ Key ν) (s : State σ ν) : Prop :=
  Handed s.session → ∃ sender, Encrypts ctx s.session (afterHandshake s.session.wire) sender ∧
    (Waiting s ∨ Running ctx s sender)

structure Secure (ctx : Context σ Key ν) (s : State σ ν) : Prop where
  disciplined : Disciplined s
  alone : s.session.successorWritable = false
  enabled : s.session.encryptionEnabled = true → Handed s.session
  progress : Progress ctx s.session (phases (s.todo worker))
  transcript : Transcript ctx s

/-! ## The worker's progress -/

variable {ctx : Context σ Key ν} {s s' : Session σ ν}

section Inversion

variable {rest : List Phase}

theorem Progress.dispatch_inv (h : Progress ctx s (.dispatch :: rest)) : rest = [] := by
  cases h
  rfl

theorem Progress.settings_inv (h : Progress ctx s (.settings :: rest)) :
    ¬ Handed s ∧ rest = [] := by
  cases h
  exact ⟨‹_›, rfl⟩

theorem Progress.enabling_inv (h : Progress ctx s (.enabling :: rest)) :
    s.encryptionEnabled = false ∧ Keyed ctx s ∧ (Handed s ∨ Dead s) ∧ rest = [] := by
  cases h
  exact ⟨‹_›, ‹_›, ‹_›, rfl⟩

theorem Progress.starting_inv (h : Progress ctx s (.starting :: rest)) :
    s.encryptionEnabled = false ∧ Keyed ctx s ∧ Handed s ∧ rest = [] := by
  cases h
  exact ⟨‹_›, ‹_›, ‹_›, rfl⟩

end Inversion

theorem progress_listeners {front rest : List Phase} (h : ∀ phase ∈ front, phase = .listener) :
    Progress ctx s (front ++ rest) ↔ Progress ctx s rest := by
  induction front with
  | nil => rfl
  | cons phase front ih =>
      obtain rfl := h phase (by simp)
      rw [← ih fun phase hphase ↦ h phase (List.mem_cons_of_mem _ hphase)]
      refine ⟨fun hprogress ↦ ?_, fun hprogress ↦ hprogress.listener⟩
      cases hprogress
      assumption

theorem progress_of_quiet {rest : List Phase} (h : quiet rest = true) : Progress ctx s rest := by
  fun_induction quiet rest with
  | case1 => exact .idle
  | case2 rest ih => exact (ih h).listener
  | case3 => exact .dispatch
  | case4 => cases h

/-- An exception ends the login, or the worker goes on where a listener called. -/
theorem progress_dropWhile {rest : List Phase} (h : Progress ctx s rest) :
    Progress ctx s (rest.dropWhile fun phase ↦ phase ≠ .listener) := by
  cases h with
  | listener h => exact h.listener
  | _ => exact .idle

theorem eq_listeners_of_phase {i : Instr} (h : i.phase = some .listener) : i = .listeners := by
  have hpath (path : SendPath) : path.phase ≠ some .listener := by
    cases path <;> decide
  have hcritical (critical : Critical) : critical.phase ≠ some .listener := by
    cases critical <;> first | exact hpath _ | nofun
  cases i with
  | listeners => rfl
  | enter critical => exact absurd h (hcritical critical)
  | acquire critical => exact absurd h (hcritical critical)
  | encode path | build path => exact absurd h (hpath path)
  | checkWritable payload | sendReliable payload => exact absurd h (hpath payload.path)
  | _ => cases h

theorem phases_unwind (instrs : List Instr) :
    phases (unwind instrs) = (phases instrs).dropWhile fun phase ↦ phase ≠ .listener := by
  fun_induction unwind instrs with
  | case1 => rfl
  | case2 rest => rfl
  | case3 rest ih => exact ih
  | case4 i rest hlisteners hunlock ih =>
      rw [ih]
      cases hphase : i.phase with
      | none => simp [phases, hphase]
      | some phase =>
          have hne : phase ≠ .listener := by
            rintro rfl
            exact hlisteners (eq_listeners_of_phase hphase)
          simp [phases, hphase, hne]

/-- What secrecy depends on is kept, and a dead session stays dead. -/
structure Keeps (s s' : Session σ ν) : Prop where
  encryptionKeys : s'.encryptionKeys = s.encryptionKeys
  encryptStream : s'.encryptStream = s.encryptStream
  hasEncryptionKeys : s'.hasEncryptionKeys = s.hasEncryptionKeys
  encryptionEnabled : s'.encryptionEnabled = s.encryptionEnabled
  sendCounter : s'.sendCounter = s.sendCounter
  wire : s'.wire = s.wire
  successorWritable : s'.successorWritable = s.successorWritable
  dead : Dead s → Dead s'

theorem Keeps.refl (s : Session σ ν) : Keeps s s := ⟨rfl, rfl, rfl, rfl, rfl, rfl, rfl, id⟩

theorem Keeps.handed (h : Keeps s s') : Handed s' ↔ Handed s := by simp only [Handed, h.wire]

theorem Keeps.keyed (h : Keeps s s') : Keyed ctx s' ↔ Keyed ctx s := by
  simp only [Keyed, startedStream, h.hasEncryptionKeys, h.encryptionKeys, h.encryptStream]

theorem Keeps.progress (h : Keeps s s') {rest : List Phase} (hprogress : Progress ctx s rest) :
    Progress ctx s' rest := by
  induction hprogress with
  | idle => exact .idle
  | listener _ ih => exact ih.listener
  | dispatch => exact .dispatch
  | settings handed => exact .settings (mt h.handed.mp handed)
  | shaking handed keyed => exact .shaking (mt h.handed.mp handed) (h.keyed.mpr keyed)
  | enabling enabled keyed handed =>
      exact .enabling (h.encryptionEnabled.trans enabled) (h.keyed.mpr keyed)
        (handed.imp h.handed.mpr h.dead)
  | starting enabled keyed handed =>
      exact .starting (h.encryptionEnabled.trans enabled) (h.keyed.mpr keyed)
        (h.handed.mpr handed)

/-- One piece of the worker's work ends; the handshake ends when it was handed over
or never will be. -/
theorem Progress.drop {phase : Phase} {rest : List Phase} (h : Progress ctx s (phase :: rest))
    (henabled : s.encryptionEnabled = true → Handed s)
    (hover : phase = .shaking → Handed s ∨ Dead s) : Progress ctx s rest := by
  cases h with
  | listener h => exact h
  | shaking handed keyed =>
      refine .enabling ?_ keyed (hover rfl)
      rw [← Bool.not_eq_true]
      exact mt henabled handed
  | _ => exact .idle

theorem phases_cons (i : Instr) (rest : List Instr) :
    phases (i :: rest) = i.phase.toList ++ phases rest := by
  cases hphase : i.phase <;> simp [phases, hphase]

/-! ## Payloads on their way -/

theorem flight_of_settled {instrs rest : List Instr} (hinstrs : ∀ j ∈ instrs, j.inFlight = false)
    (hrest : ∀ j ∈ rest, j.inFlight = false) : flight (instrs ++ rest) = none := by
  cases hall : instrs ++ rest with
  | nil => rfl
  | cons i others =>
      have hi : i ∈ instrs ++ rest := by simp [hall]
      have hsettled : i.inFlight = false := (List.mem_append.mp hi).elim (hinstrs i) (hrest i)
      simp [flight, hsettled]

theorem flight_of_free {instrs rest : List Instr} (hfree : instrs.all Instr.free = true)
    (hrest : ∀ j ∈ rest, j.inFlight = false) : flight (instrs ++ rest) = none :=
  flight_of_settled (fun j hj ↦ (free_iff.mp (List.all_eq_true.mp hfree j hj)).1) hrest

theorem flight_rest {rest : List Instr} (hrest : ∀ j ∈ rest, j.inFlight = false) :
    flight rest = none :=
  flight_of_settled (List.forall_mem_nil _) hrest

theorem flight_unwind {rest : List Instr} (hrest : ∀ j ∈ rest, j.inFlight = false) :
    flight (unwind rest) = none :=
  flight_rest fun j hj ↦ hrest j ((unwind_sublist rest).subset hj)

/-- What is kept, with the same payloads on their way, keeps the transcript. -/
theorem Keeps.transcript {s s' : State σ ν} (h : Keeps s.session s'.session)
    (hflight : ∀ t, flight (s'.todo t) = flight (s.todo t)) (ht : Transcript ctx s) :
    Transcript ctx s' := by
  intro hhanded
  obtain ⟨sender, ⟨stream, batches, encrypted, hstream, hsend, hbytes⟩, hstate⟩ :=
    ht (h.handed.mp hhanded)
  refine ⟨sender, ⟨stream, batches, encrypted, ?_, ?_, ?_⟩, ?_⟩
  · simpa only [startedStream, h.encryptionKeys] using hstream
  · simpa only [h.encryptionKeys] using hsend
  · simpa only [h.wire] using hbytes
  · refine hstate.imp ?_ ?_
    · rintro ⟨henabled, hnothing, hwaiting⟩
      refine ⟨h.encryptionEnabled.trans henabled, by rw [h.wire, hnothing], fun t i hi ↦ ?_⟩
      obtain ⟨payload, hi, hdead⟩ := hwaiting t i (hflight t ▸ hi)
      exact ⟨payload, hi, h.dead hdead⟩
    · rintro ⟨henabled, hkeys, current, hcurrent, hsending, hchecking, hnone⟩
      have hnext (payload : WirePayload)
          (hp : NextPayload ctx s.session sender ⟨current, s.session.sendCounter⟩ payload) :
          NextPayload ctx s'.session sender ⟨current, s'.session.sendCounter⟩ payload := by
        obtain ⟨batch, out, sender', hsend, hbytes, hsender⟩ := hp
        refine ⟨batch, out, sender', by rwa [h.encryptionKeys], hbytes, ?_⟩
        rw [h.sendCounter]
        exact hsender.imp h.dead id
      refine ⟨h.encryptionEnabled.trans henabled, h.hasEncryptionKeys.trans hkeys, current,
        h.encryptStream.trans hcurrent, fun t payload hp ↦ ?_, fun t payload hp ↦ ?_, fun hall ↦ ?_⟩
      · exact hnext payload (hsending t payload (hflight t ▸ hp))
      · exact (hchecking t payload (hflight t ▸ hp)).imp h.dead (hnext payload)
      · rw [h.sendCounter]
        exact (hnone fun t ↦ hflight t ▸ hall t).imp h.dead id

theorem Secure.locked_of_flight {s : State σ ν} (h : Secure ctx s) {t : ℕ} {i : Instr}
    (hflight : flight (s.todo t) = some i) (hclear : t = worker → Handed s.session) :
    i ∈ s.todo t ∧ i.locked = true := by
  cases htodo : s.todo t with
  | nil => simp [htodo, flight] at hflight
  | cons j rest =>
      simp only [htodo, flight, Option.ite_none_right_eq_some, Option.some.injEq] at hflight
      obtain ⟨hin, rfl⟩ := hflight
      refine ⟨by simp, ?_⟩
      -- a payload in the clear is on the worker, and only before the handshake
      have hphase : j.phase ≠ some .settings := by
        intro hphase
        have hphases : phases (s.todo t) = .settings :: phases rest := by
          simp [htodo, phases, hphase]
        by_cases ht : t = worker
        · have hprogress := h.progress
          rw [← ht, hphases] at hprogress
          exact hprogress.settings_inv.1 (hclear ht)
        · have hlistener := (h.disciplined t).others ht .settings (by simp [hphases])
          cases hlistener
      cases j with
      | checkWritable payload | sendReliable payload =>
          obtain ⟨path, bytes⟩ := payload
          cases path with
          | preCompression => exact absurd rfl hphase
          | _ => rfl
      | _ => cases hin

/-- Inside the mutex a thread is the only one with a payload. -/
theorem Secure.flight_eq_none {s : State σ ν} (h : Secure ctx s) {t u : ℕ} {i : Instr}
    (hi : i ∈ s.todo t) (hlocked : i.locked = true) (hne : u ≠ t)
    (hclear : u = worker → Handed s.session) : flight (s.todo u) = none := by
  cases hflight : flight (s.todo u) with
  | none => rfl
  | some j =>
      obtain ⟨hj, hjlocked⟩ := h.locked_of_flight hflight hclear
      exact absurd (locked_unique h.disciplined hj hi hjlocked hlocked) hne

/-! ## Steps that keep the session -/

theorem Secure.keep {s : State σ ν} {t : ℕ} {session : Session σ ν} {todo : List Instr}
    (h : Secure ctx s) (hdisciplined : Disciplined (State.setTodo { s with session } t todo))
    (hkeeps : Keeps s.session session) (hflight : flight todo = flight (s.todo t))
    (hprogress : t = worker → Progress ctx session (phases todo)) :
    Secure ctx (State.setTodo { s with session } t todo) where
  disciplined := hdisciplined
  alone := hkeeps.successorWritable.trans h.alone
  enabled := fun henabled ↦
    hkeeps.handed.mpr (h.enabled (hkeeps.encryptionEnabled.symm.trans henabled))
  progress := by
    by_cases ht : t = worker
    · subst ht
      simpa [State.setTodo] using hprogress rfl
    · have hsame := hkeeps.progress h.progress
      simpa [State.setTodo, Ne.symm ht] using hsame
  transcript := by
    refine Keeps.transcript (s := s) hkeeps (fun u ↦ ?_) h.transcript
    by_cases hu : u = t
    · subst hu
      simpa [State.setTodo] using hflight
    · simp [State.setTodo, hu]

theorem dead_of_detached (halone : s.successorWritable = false) (h : s.attached = false) :
    Dead s := by
  simp [Dead, Session.hasWritablePlayer, h, halone]

theorem dead_of_disconnected (halone : s.successorWritable = false)
    (h : s.status = .disconnected) : Dead s := by
  simp [Dead, Session.hasWritablePlayer, h, halone]

/-- Only storing a status can revive a session. -/
theorem perform_plain_keeps {t : ℕ} {i : Instr} {instrs : List Instr} (hplain : i.plain = true)
    (hacquire : i.acquires = false) (halone : s.successorWritable = false)
    (hstatus : ∀ nextStatus, i = .storeStatus nextStatus →
      s.status = .disconnected → nextStatus = .disconnected)
    (h : perform ctx t s i = .next s' instrs) : Keeps s s' := by
  have hframe := (perform_plain hplain hacquire h).1
  refine ⟨hframe.encryptionKeys, hframe.encryptStream, hframe.hasEncryptionKeys,
    hframe.encryptionEnabled, hframe.sendCounter, hframe.wire, hframe.successorWritable,
    fun hdead ↦ ?_⟩
  cases i with
  | storeStatus nextStatus =>
      simp only [perform] at h
      split at h
      · rename_i hattached
        cases h
        have hdown : s.status = .disconnected := by
          simpa [Dead, Session.hasWritablePlayer, hattached] using hdead
        exact dead_of_disconnected halone (hstatus nextStatus rfl hdown)
      · cases h
        exact hdead
  | markDisconnected =>
      simp only [perform] at h
      split at h <;> cases h
      · exact dead_of_disconnected halone rfl
      · exact hdead
  | detach =>
      cases h
      exact dead_of_detached halone rfl
  | acquire => cases hacquire
  | unlock | build | checkWritable | sendReliable | sendPreCompression | encodePreCompression
  | handleBuiltInPacket | handleLogin | verifyLogin | installKeys | enableEncryption
  | startEncryption => cases hplain
  | _ =>
      simp only [perform] at h
      repeat' split at h
      all_goals cases h
      all_goals exact hdead

end Secrecy

end BedrockProtocol.BedrockServer
