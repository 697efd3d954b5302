import BedrockProtocol.Server.Secrecy

/-!
# What follows the handshake is encrypted

Every careful step keeps the invariant of `Secrecy`, so every payload that a
careful run hands over after the handshake is the next one of the session's
cipher stream.  A client that asks for the network settings after its login gets
them in the clear.
-/

namespace BedrockProtocol.BedrockServer

open BedrockEncryption

section Secrecy

variable {σ Key ν : Type} {ctx : Context σ Key ν} {t : ℕ} {instrs rest : List Instr} {session : Session σ ν}

/-! ## Steps -/

/-- A step that leaves the session alone keeps the worker's progress, or ends one
piece of its work. -/
theorem Secure.progress_next {s : State σ ν} {i : Instr} (h : Secure ctx s)
    (htodo : s.todo worker = i :: rest) (hkeeps : Keeps s.session session)
    (hphases : phases instrs = [] ∨ phases instrs = i.phase.toList)
    (hover : i.phase = some .shaking → phases instrs = [] → Handed session ∨ Dead session) :
    Progress ctx session (phases (instrs ++ rest)) := by
  have hprogress := hkeeps.progress h.progress
  have henabled : session.encryptionEnabled = true → Handed session := by
    rw [hkeeps.encryptionEnabled, hkeeps.handed]
    exact h.enabled
  rw [htodo, phases_cons] at hprogress
  rw [phases_append]
  rcases hphases with hnil | hsame
  · rw [hnil, List.nil_append]
    cases hphase : i.phase with
    | none => simpa [hphase] using hprogress
    | some phase =>
        rw [hphase] at hprogress
        exact Progress.drop hprogress henabled fun heq ↦ hover (by rw [hphase, heq]) hnil
  · rwa [hsame]

theorem Secure.progress_drop {s : State σ ν} {i : Instr} (h : Secure ctx s)
    (htodo : s.todo worker = i :: rest) (hkeeps : Keeps s.session session)
    (hover : i.phase = some .shaking → Handed session ∨ Dead session) :
    Progress ctx session (phases rest) := by
  rw [← List.nil_append rest]
  exact h.progress_next htodo hkeeps (.inl rfl) fun hshaking _ ↦ hover hshaking

/-- Plain instructions run in front of the worker's work. -/
theorem Secure.progress_plain {s : State σ ν} {i : Instr} (h : Secure ctx s)
    (htodo : s.todo worker = i :: rest) (hplain : i.plain = true)
    (hkeeps : Keeps s.session session) (hinstrs : instrs.all Instr.plain = true) :
    Progress ctx session (phases (instrs ++ rest)) := by
  have hprogress := hkeeps.progress h.progress
  have hi : [i].all Instr.plain = true := (Bool.and_true _).trans hplain
  rw [htodo, ← List.singleton_append, phases_append,
    progress_listeners (listener_of_mem_phases hi)] at hprogress
  rwa [phases_append, progress_listeners (listener_of_mem_phases hinstrs)]

theorem Secure.exec_plain {s : State σ ν} {i : Instr} (h : Secure ctx s)
    (htodo : s.todo t = i :: rest) (hplain : i.plain = true) (hacquire : i.acquires = false)
    (hstatus : ∀ nextStatus, i = .storeStatus nextStatus →
      s.session.status = .disconnected → nextStatus = .disconnected)
    (hperform : perform ctx t s.session i = .next session instrs)
    (hdisciplined : Disciplined (State.setTodo { s with session } t (instrs ++ rest))) :
    Secure ctx (State.setTodo { s with session } t (instrs ++ rest)) := by
  have hthread := h.disciplined t
  rw [htodo] at hthread
  have hkeeps := perform_plain_keeps hplain hacquire h.alone hstatus hperform
  have hinstrs := (perform_plain hplain hacquire hperform).2
  refine h.keep hdisciplined hkeeps ?_ ?_
  · rw [flight_of_free (all_free_of_plain hinstrs) hthread.rest_settled, htodo, flight,
      (free_iff.mp (Instr.free_of_plain hplain)).1]
    rfl
  · rintro rfl
    exact h.progress_plain htodo hplain hkeeps hinstrs

/-- Entering the mutex, encoding inside it and leaving it. -/
theorem Secure.exec_enter {s : State σ ν} {critical : Critical} (h : Secure ctx s)
    (htodo : s.todo t = .enter critical :: rest)
    (hperform : perform ctx t s.session (.enter critical) = .next session instrs)
    (hdisciplined : Disciplined (State.setTodo { s with session } t (instrs ++ rest))) :
    Secure ctx (State.setTodo { s with session } t (instrs ++ rest)) := by
  have hthread := h.disciplined t
  rw [htodo] at hthread
  have hphases := perform_outbound rfl hperform
  cases hperform
  refine h.keep hdisciplined (.refl _) ?_ ?_
  · rw [flight_of_free (by split <;> rfl) hthread.rest_settled, htodo]
    rfl
  · rintro rfl
    refine h.progress_next htodo (.refl _) hphases fun hshaking hdropped ↦ .inr ?_
    split at hdropped
    · rw [phases_cons, show (Instr.acquire critical).phase = some .shaking from hshaking] at hdropped
      cases hdropped
    · rename_i hdetached
      exact dead_of_detached h.alone (by simpa using hdetached)

theorem Secure.exec_acquire {s : State σ ν} {critical : Critical} (h : Secure ctx s)
    (htodo : s.todo t = .acquire critical :: rest)
    (hperform : perform ctx t s.session (.acquire critical) = .next session instrs)
    (hdisciplined : Disciplined (State.setTodo { s with session } t (instrs ++ rest))) :
    Secure ctx (State.setTodo { s with session } t (instrs ++ rest)) := by
  have hthread := h.disciplined t
  rw [htodo] at hthread
  simp only [perform] at hperform
  split at hperform
  · cases hperform
  · cases hperform
    refine h.keep hdisciplined ⟨rfl, rfl, rfl, rfl, rfl, rfl, rfl, id⟩ ?_ ?_
    · rw [htodo, flight_of_settled]
      · rfl
      · intro j hj
        rcases List.mem_append.mp hj with hj | hj
        · exact (critical.body_settled j hj).1
        · rw [List.mem_singleton.mp hj]
          rfl
      · exact hthread.rest_settled
    · rintro rfl
      refine h.progress_next htodo ⟨rfl, rfl, rfl, rfl, rfl, rfl, rfl, id⟩
        (.inr (phases_critical critical)) fun hshaking hdropped ↦ ?_
      rw [phases_critical, show critical.phase = some .shaking from hshaking] at hdropped
      cases hdropped

theorem Secure.exec_encode {s : State σ ν} {path : SendPath} {packetName : String}
    {value : ProtoDefValue} {compression : VersionedMcpeCompression} (h : Secure ctx s)
    (htodo : s.todo t = .encode path packetName value compression :: rest)
    (hperform : perform ctx t s.session (.encode path packetName value compression) =
      .next session instrs)
    (hdisciplined : Disciplined (State.setTodo { s with session } t (instrs ++ rest))) :
    Secure ctx (State.setTodo { s with session } t (instrs ++ rest)) := by
  have hthread := h.disciplined t
  rw [htodo] at hthread
  simp only [perform] at hperform
  split at hperform
  · cases hperform
  · cases hperform
    refine h.keep hdisciplined (.refl _) ?_ ?_
    · rw [flight_of_free rfl hthread.rest_settled, htodo]
      rfl
    · rintro rfl
      refine h.progress_next htodo (.refl _) (.inr ?_) fun hshaking hdropped ↦ ?_
      · rw [phases_cons]
        exact List.append_nil _
      · rw [phases_cons, List.append_eq_nil_iff] at hdropped
        have hnone := hshaking.symm.trans (Option.toList_eq_nil_iff.mp hdropped.1)
        cases hnone

theorem Secure.exec_unlock {s : State σ ν} (h : Secure ctx s) (htodo : s.todo t = .unlock :: rest)
    (hdisciplined : Disciplined (State.setTodo { s with session := { s.session with
      outboundMutex := s.session.outboundMutex.unlock } } t rest)) :
    Secure ctx (State.setTodo { s with session := { s.session with
      outboundMutex := s.session.outboundMutex.unlock } } t rest) := by
  have hthread := h.disciplined t
  rw [htodo] at hthread
  have hkeeps : Keeps s.session { s.session with
      outboundMutex := s.session.outboundMutex.unlock } := ⟨rfl, rfl, rfl, rfl, rfl, rfl, rfl, id⟩
  refine h.keep hdisciplined hkeeps ?_ ?_
  · rw [htodo, ← List.nil_append rest, flight_of_free rfl hthread.rest_settled]
    rfl
  · rintro rfl
    exact h.progress_drop htodo hkeeps nofun

/-! ## Building and handing over -/

/-- Only thread `t` has a payload, if any. -/
theorem eq_of_flight {s : State σ ν} {todo : List Instr} {u : ℕ} {i : Instr}
    {session : Session σ ν} (hother : ∀ u, u ≠ t → flight (s.todo u) = none)
    (h : flight ((State.setTodo { s with session } t todo).todo u) = some i) :
    flight todo = some i := by
  by_cases hu : u = t
  · subst hu
    simpa [State.setTodo] using h
  · have hnone := hother u hu
    simp [State.setTodo, hu, hnone] at h

theorem eq_of_flight_setTodo {s : State σ ν} {todo : List Instr} {u : ℕ} {i : Instr}
    (hother : ∀ u, u ≠ t → flight (s.todo u) = none)
    (h : flight ((s.setTodo t todo).todo u) = some i) : flight todo = some i :=
  eq_of_flight hother h

/-- With encryption on, the worker is done with logins and answers in the clear. -/
theorem Progress.quiet {rest : List Phase} (h : Progress ctx s rest)
    (henabled : s.encryptionEnabled = true) (hhanded : Handed s) :
    BedrockServer.quiet rest = true := by
  induction h with
  | idle => rfl
  | listener _ ih => exact ih
  | dispatch => rfl
  | settings handed => exact absurd hhanded handed
  | shaking handed => exact absurd hhanded handed
  | enabling hoff | starting hoff =>
      rw [henabled] at hoff
      cases hoff

theorem Secure.running {s : State σ ν} (h : Secure ctx s)
    (henabled : s.session.encryptionEnabled = true) :
    ∃ sender, Encrypts ctx s.session (afterHandshake s.session.wire) sender ∧
      Running ctx s sender := by
  obtain ⟨sender, hencrypts, hwaiting | hrunning⟩ := h.transcript (h.enabled henabled)
  · rw [hwaiting.1] at henabled
    cases henabled
  · exact ⟨sender, hencrypts, hrunning⟩

/-- Building an encrypted payload takes the stream one payload further. -/
theorem Secure.exec_build_encrypted {s : State σ ν} {path : SendPath}
    {packets : List VersionedGamePacket} {compression : VersionedMcpeCompression}
    {stream : BedrockCipherStream σ} {batch encrypted : List UInt8} {sender : Endpoint σ}
    (h : Secure ctx s) (htodo : s.todo t = .build path packets compression :: rest)
    (henabled : s.session.encryptionEnabled = true)
    (hstream : s.session.encryptStream = some stream)
    (hsend : send ctx.sha256 ctx.evp s.session.encryptionKeys.secretKeyBytes
      ⟨stream, s.session.sendCounter⟩ batch = .ok (encrypted, sender))
    (hsession : session = { s.session with
      encryptStream := some sender.stream, sendCounter := sender.counter })
    (hdisciplined : Disciplined (State.setTodo { s with session } t
      (.checkWritable ⟨path, 0xfe :: encrypted⟩ :: rest))) :
    Secure ctx (State.setTodo { s with session } t
      (.checkWritable ⟨path, 0xfe :: encrypted⟩ :: rest)) := by
  have hhanded := h.enabled henabled
  have hthread := h.disciplined t
  rw [htodo] at hthread
  have hbuild : Instr.build path packets compression ∈ s.todo t := by simp [htodo]
  have hother (u : ℕ) (hu : u ≠ t) : flight (s.todo u) = none :=
    h.flight_eq_none hbuild rfl hu fun _ ↦ hhanded
  subst hsession
  refine ⟨hdisciplined, h.alone, fun _ ↦ hhanded, ?_, fun _ ↦ ?_⟩
  · have hquiet := h.progress.quiet henabled hhanded
    refine progress_of_quiet ?_
    by_cases ht : t = worker
    · subst ht
      simpa [State.setTodo, htodo, phases_cons, Instr.phase] using hquiet
    · simpa [State.setTodo, Ne.symm ht] using hquiet
  · obtain ⟨last, hencrypts, -, hkeys, current, hcurrent, -, -, hnone⟩ := h.running henabled
    obtain rfl : current = stream := Option.some.inj (hcurrent.symm.trans hstream)
    have hlast : Dead s.session ∨ last = ⟨current, s.session.sendCounter⟩ := by
      refine hnone fun u ↦ ?_
      by_cases hu : u = t
      · subst hu
        rw [htodo]
        rfl
      · exact hother u hu
    refine ⟨last, hencrypts, .inr ⟨henabled, hkeys, sender.stream, rfl, ?_, ?_, ?_⟩⟩
    · intro u payload hpayload
      cases eq_of_flight hother hpayload
    · intro u payload hpayload
      cases eq_of_flight hother hpayload
      refine hlast.imp id fun hlast ↦ ?_
      rw [hlast]
      exact ⟨batch, encrypted, sender, hsend, rfl, .inr rfl⟩
    · intro hall
      have hself := hall t
      simp [State.setTodo, flight, Instr.inFlight] at hself

/-- A payload in the clear is built before the handshake, or for a dead session. -/
theorem Secure.exec_build_clear {s : State σ ν} {path : SendPath}
    {packets : List VersionedGamePacket} {compression : VersionedMcpeCompression}
    {bytes : List UInt8} (h : Secure ctx s)
    (htodo : s.todo t = .build path packets compression :: rest)
    (hoff : (s.session.encryptionEnabled && s.session.hasEncryptionKeys) = false)
    (hcareful : Handed s.session → s.session.encryptionEnabled = false → Dead s.session)
    (hdisciplined : Disciplined (s.setTodo t (.checkWritable ⟨path, bytes⟩ :: rest))) :
    Secure ctx (s.setTodo t (.checkWritable ⟨path, bytes⟩ :: rest)) := by
  refine ⟨hdisciplined, h.alone, h.enabled, ?_, fun hhanded ↦ ?_⟩
  · have hprogress := h.progress
    by_cases ht : t = worker
    · subst ht
      simpa [State.setTodo, htodo, phases_cons, Instr.phase] using hprogress
    · simpa [State.setTodo, Ne.symm ht] using hprogress
  · have hbuild : Instr.build path packets compression ∈ s.todo t := by simp [htodo]
    have hother (u : ℕ) (hu : u ≠ t) : flight (s.todo u) = none :=
      h.flight_eq_none hbuild rfl hu fun _ ↦ hhanded
    obtain ⟨sender, hencrypts, ⟨henabled, hnothing, -⟩ | ⟨henabled, hkeys, -⟩⟩ :=
      h.transcript hhanded
    · refine ⟨sender, hencrypts, .inl ⟨henabled, hnothing, fun u i hi ↦ ?_⟩⟩
      cases eq_of_flight_setTodo hother hi
      exact ⟨_, rfl, hcareful hhanded henabled⟩
    · simp [henabled, hkeys] at hoff

theorem Secure.exec_build {s : State σ ν} {path : SendPath} {packets : List VersionedGamePacket}
    {compression : VersionedMcpeCompression} (h : Secure ctx s)
    (htodo : s.todo t = .build path packets compression :: rest)
    (hcareful : Handed s.session → s.session.encryptionEnabled = false → Dead s.session)
    (hperform : perform ctx t s.session (.build path packets compression) = .next session instrs)
    (hdisciplined : Disciplined (State.setTodo { s with session } t (instrs ++ rest))) :
    Secure ctx (State.setTodo { s with session } t (instrs ++ rest)) := by
  rcases buildPayload_next hperform with ⟨hdown, rfl, rfl⟩ |
    ⟨hon, stream, batch, encrypted, sender, hstream, hsend, rfl, rfl⟩ | ⟨hoff, rfl, bytes, rfl⟩
  · have hthread := h.disciplined t
    rw [htodo] at hthread
    refine h.keep hdisciplined (.refl _) ?_ ?_
    · rw [flight_of_free rfl hthread.rest_settled, htodo]
      rfl
    · rintro rfl
      exact h.progress_next htodo (.refl _) (.inl rfl) fun _ _ ↦
        .inr (dead_of_disconnected h.alone hdown)
  · exact h.exec_build_encrypted htodo (Bool.and_eq_true_iff.mp hon).1 hstream hsend rfl
      hdisciplined
  · exact h.exec_build_clear htodo hoff hcareful hdisciplined

/-- A payload of a dead session is dropped. -/
theorem Secure.exec_drop {s : State σ ν} {payload : WirePayload} (h : Secure ctx s)
    (htodo : s.todo t = .checkWritable payload :: rest) (hdead : Dead s.session)
    (hdisciplined : Disciplined (s.setTodo t rest)) : Secure ctx (s.setTodo t rest) := by
  have hthread := h.disciplined t
  rw [htodo] at hthread
  have hrest : flight rest = none := flight_rest hthread.rest_settled
  refine ⟨hdisciplined, h.alone, h.enabled, ?_, fun hhanded ↦ ?_⟩
  · by_cases ht : t = worker
    · subst ht
      have hprogress := h.progress_drop htodo (.refl _) fun _ ↦ .inr hdead
      simpa [State.setTodo] using hprogress
    · simpa [State.setTodo, Ne.symm ht] using h.progress
  · obtain ⟨hmem, hlocked⟩ := h.locked_of_flight (by rw [htodo]; rfl) fun _ ↦ hhanded
    have hother (u : ℕ) (hu : u ≠ t) : flight (s.todo u) = none :=
      h.flight_eq_none hmem hlocked hu fun _ ↦ hhanded
    have hnone {u : ℕ} {i : Instr} (hi : flight ((s.setTodo t rest).todo u) = some i) : False := by
      have hself := eq_of_flight_setTodo hother hi
      rw [hrest] at hself
      cases hself
    obtain ⟨sender, hencrypts, ⟨henabled, hnothing, -⟩ | ⟨henabled, hkeys, stream, hstream, -⟩⟩ :=
      h.transcript hhanded
    · exact ⟨sender, hencrypts, .inl ⟨henabled, hnothing, fun u i hi ↦ (hnone hi).elim⟩⟩
    · exact ⟨sender, hencrypts, .inr ⟨henabled, hkeys, stream, hstream,
        fun u p hp ↦ (hnone hp).elim, fun u p hp ↦ (hnone hp).elim, fun _ ↦ .inl hdead⟩⟩

/-- A payload of a live session goes on to `sendReliable`. -/
theorem Secure.exec_pass {s : State σ ν} {payload : WirePayload} (h : Secure ctx s)
    (htodo : s.todo t = .checkWritable payload :: rest) (hlive : ¬ Dead s.session)
    (hdisciplined : Disciplined (s.setTodo t (.sendReliable payload :: rest))) :
    Secure ctx (s.setTodo t (.sendReliable payload :: rest)) := by
  have hflight : flight (s.todo t) = some (.checkWritable payload) := by
    rw [htodo]
    rfl
  refine ⟨hdisciplined, h.alone, h.enabled, ?_, fun hhanded ↦ ?_⟩
  · have hprogress := h.progress
    by_cases ht : t = worker
    · subst ht
      simpa [State.setTodo, htodo, phases_cons, Instr.phase] using hprogress
    · simpa [State.setTodo, Ne.symm ht] using hprogress
  · obtain ⟨hmem, hlocked⟩ := h.locked_of_flight hflight fun _ ↦ hhanded
    have hother (u : ℕ) (hu : u ≠ t) : flight (s.todo u) = none :=
      h.flight_eq_none hmem hlocked hu fun _ ↦ hhanded
    obtain ⟨sender, hencrypts, ⟨-, -, hwaiting⟩ |
      ⟨henabled, hkeys, stream, hstream, -, hchecking, -⟩⟩ := h.transcript hhanded
    · obtain ⟨-, -, hdead⟩ := hwaiting t _ hflight
      exact absurd hdead hlive
    · have hnext := (hchecking t payload hflight).resolve_left hlive
      refine ⟨sender, hencrypts, .inr ⟨henabled, hkeys, stream, hstream, fun u p hp ↦ ?_,
        fun u p hp ↦ ?_, fun hall ↦ ?_⟩⟩
      · cases eq_of_flight_setTodo hother hp
        exact hnext
      · cases eq_of_flight_setTodo hother hp
      · have hself := hall t
        simp [State.setTodo, flight, Instr.inFlight] at hself

theorem afterHandshake_append {wire : List WirePayload} (payload : WirePayload)
    (h : ∃ p ∈ wire, p.path = .login) :
    afterHandshake (wire ++ [payload]) = afterHandshake wire ++ [payload] := by
  obtain ⟨p, hp, hlogin⟩ := h
  have hne : wire.dropWhile (fun payload ↦ payload.path ≠ .login) ≠ [] := by
    simp only [ne_eq, List.dropWhile_eq_nil_iff, not_forall]
    exact ⟨p, hp, by simp [hlogin]⟩
  rw [afterHandshake, afterHandshake, List.dropWhile_append]
  split
  · exact absurd (List.isEmpty_iff.mp ‹_›) hne
  · exact List.tail_append_of_ne_nil hne

theorem afterHandshake_first {wire : List WirePayload} {payload : WirePayload}
    (h : ¬ ∃ p ∈ wire, p.path = .login) (hlogin : payload.path = .login) :
    afterHandshake (wire ++ [payload]) = [] := by
  have hnil : wire.dropWhile (fun payload ↦ payload.path ≠ .login) = [] := by
    rw [List.dropWhile_eq_nil_iff]
    intro p hp
    have hother : p.path ≠ .login := fun hlogin ↦ h ⟨p, hp, hlogin⟩
    simpa using hother
  rw [afterHandshake, List.dropWhile_append, hnil]
  simp [hlogin]

/-- The next payload of the stream is handed over. -/
theorem Secure.exec_sendReliable_encrypted {s : State σ ν} {payload : WirePayload}
    (h : Secure ctx s) (htodo : s.todo t = .sendReliable payload :: rest)
    (hhanded : Handed s.session)
    (hsession : session = { s.session with wire := s.session.wire ++ [payload] })
    (hdisciplined : Disciplined (State.setTodo { s with session } t rest)) :
    Secure ctx (State.setTodo { s with session } t rest) := by
  have hthread := h.disciplined t
  rw [htodo] at hthread
  have hrest : flight rest = none := flight_rest hthread.rest_settled
  have hflight : flight (s.todo t) = some (.sendReliable payload) := by
    rw [htodo]
    rfl
  obtain ⟨hmem, hlocked⟩ := h.locked_of_flight hflight fun _ ↦ hhanded
  have hother (u : ℕ) (hu : u ≠ t) : flight (s.todo u) = none :=
    h.flight_eq_none hmem hlocked hu fun _ ↦ hhanded
  obtain ⟨sender, hencrypts, ⟨-, -, hwaiting⟩ |
    ⟨henabled, hkeys, stream, hstream, hsending, -, -⟩⟩ := h.transcript hhanded
  · obtain ⟨_, himpossible, -⟩ := hwaiting t _ hflight
    cases himpossible
  · have hhanded' : Handed session := by
      obtain ⟨p, hp, hlogin⟩ := hhanded
      rw [hsession]
      exact ⟨p, List.mem_append_left _ hp, hlogin⟩
    obtain ⟨batch, encrypted, sender', hsend, hbytes, hsender⟩ := hsending t payload hflight
    obtain ⟨started, batches, outs, hstarted, hall, houts⟩ := hencrypts
    have hnone {u : ℕ} {i : Instr}
        (hi : flight ((State.setTodo { s with session } t rest).todo u) = some i) : False := by
      have hself := eq_of_flight hother hi
      rw [hrest] at hself
      cases hself
    have hquiet := h.progress.quiet henabled hhanded
    subst hsession
    refine ⟨hdisciplined, h.alone, fun _ ↦ hhanded', progress_of_quiet ?_, fun _ ↦ ?_⟩
    · by_cases ht : t = worker
      · subst ht
        rw [htodo, phases_cons] at hquiet
        cases hphase : (Instr.sendReliable payload).phase with
        | none => simpa [State.setTodo, hphase] using hquiet
        | some phase =>
            rw [hphase] at hquiet
            obtain ⟨path, bytes⟩ := payload
            cases path <;> cases hphase <;> cases hquiet
      · simpa [State.setTodo, Ne.symm ht] using hquiet
    · refine ⟨sender', ⟨started, batches ++ [batch], outs ++ [encrypted], hstarted, ?_, ?_⟩,
        .inr ⟨henabled, hkeys, stream, hstream, fun u p hp ↦ (hnone hp).elim,
          fun u p hp ↦ (hnone hp).elim, fun _ ↦ hsender⟩⟩
      · exact sendAll_append hall hsend
      · simp only [State.setTodo, afterHandshake_append payload hhanded, List.map_append, houts,
          List.map_cons, List.map_nil, hbytes]

/-- The handshake itself is handed over, by the worker and inside the mutex. -/
theorem Secure.exec_sendReliable_handshake {s : State σ ν} {payload : WirePayload}
    (h : Secure ctx s) (htodo : s.todo t = .sendReliable payload :: rest)
    (hhanded : ¬ Handed s.session) (hlogin : payload.path = .login)
    (hsession : session = { s.session with wire := s.session.wire ++ [payload] })
    (hdisciplined : Disciplined (State.setTodo { s with session } t rest)) :
    Secure ctx (State.setTodo { s with session } t rest) := by
  have hthread := h.disciplined t
  rw [htodo] at hthread
  have hphase : (Instr.sendReliable payload).phase = some .shaking := by
    simp [Instr.phase, SendPath.phase, hlogin]
  have ht : t = worker := by
    by_contra hne
    have hlistener := hthread.others hne .shaking (by simp [phases_cons, hphase])
    cases hlistener
  subst ht
  have hrest : flight rest = none := flight_rest hthread.rest_settled
  have hother (u : ℕ) (hu : u ≠ worker) : flight (s.todo u) = none := by
    refine h.flight_eq_none (i := .sendReliable payload) (by simp [htodo]) ?_ hu
      fun hworker ↦ absurd hworker hu
    simp [Instr.locked, hlogin]
  have hhanded' : Handed session := by
    rw [hsession]
    exact ⟨payload, by simp, hlogin⟩
  have hprogress := h.progress
  rw [htodo, phases_cons, hphase] at hprogress
  generalize hphases : phases rest = others at hprogress
  cases hprogress with
  | shaking _ keyed =>
      have henabled : s.session.encryptionEnabled = false := by
        rw [← Bool.not_eq_true]
        exact mt h.enabled hhanded
      subst hsession
      refine ⟨hdisciplined, h.alone, fun _ ↦ hhanded', ?_, fun _ ↦ ?_⟩
      · have henabling : Progress ctx { s.session with wire := s.session.wire ++ [payload] }
            [.enabling] := .enabling henabled keyed (.inl hhanded')
        simpa [State.setTodo, hphases] using henabling
      · obtain ⟨-, stream, hstream, -⟩ := keyed
        have hnothing := afterHandshake_first hhanded hlogin
        refine ⟨⟨stream, 0⟩, ⟨stream, [], [], hstream, rfl, ?_⟩,
          .inl ⟨henabled, hnothing, fun u i hi ↦ ?_⟩⟩
        · simp [State.setTodo, hnothing]
        · have hself := eq_of_flight hother hi
          rw [hrest] at hself
          cases hself

/-- Before the handshake anything may be handed over. -/
theorem Secure.exec_sendReliable_before {s : State σ ν} {payload : WirePayload}
    (h : Secure ctx s) (htodo : s.todo t = .sendReliable payload :: rest)
    (hhanded : ¬ Handed s.session) (hlogin : payload.path ≠ .login)
    (hsession : session = { s.session with wire := s.session.wire ++ [payload] })
    (hdisciplined : Disciplined (State.setTodo { s with session } t rest)) :
    Secure ctx (State.setTodo { s with session } t rest) := by
  have hhanded' : ¬ Handed session := by
    rintro ⟨p, hp, hplogin⟩
    rw [hsession] at hp
    rcases List.mem_append.mp hp with hp | hp
    · exact hhanded ⟨p, hp, hplogin⟩
    · obtain rfl := List.mem_singleton.mp hp
      exact hlogin hplogin
  have hsame {phases : List Phase} (hprogress : Progress ctx s.session phases) :
      Progress ctx session phases := by
    subst hsession
    induction hprogress with
    | idle => exact .idle
    | listener _ ih => exact ih.listener
    | dispatch => exact .dispatch
    | settings _ => exact .settings hhanded'
    | shaking _ keyed => exact .shaking hhanded' keyed
    | enabling enabled keyed handed =>
        exact .enabling enabled keyed (.inr (handed.resolve_left hhanded))
    | starting _ _ handed => exact absurd handed hhanded
  have hprogress := h.progress
  refine ⟨hdisciplined, by simpa [hsession, State.setTodo] using h.alone, fun henabled ↦ ?_, ?_,
    fun hnow ↦ absurd hnow hhanded'⟩
  · refine absurd (h.enabled ?_) hhanded
    simpa [hsession, State.setTodo] using henabled
  · by_cases ht : t = worker
    · subst ht
      rw [htodo, phases_cons] at hprogress
      have hdropped : Progress ctx s.session (phases rest) := by
        cases hphase : (Instr.sendReliable payload).phase with
        | none => simpa [hphase] using hprogress
        | some phase =>
            rw [hphase] at hprogress
            refine Progress.drop hprogress h.enabled ?_
            rintro rfl
            obtain ⟨path, bytes⟩ := payload
            cases path with
            | login => exact absurd rfl hlogin
            | packets | preCompression => cases hphase
      simpa [State.setTodo] using hsame hdropped
    · simpa [State.setTodo, Ne.symm ht] using hsame hprogress

theorem Secure.exec_sendReliable {s : State σ ν} {payload : WirePayload} (h : Secure ctx s)
    (htodo : s.todo t = .sendReliable payload :: rest)
    (hsession : session = { s.session with wire := s.session.wire ++ [payload] })
    (hdisciplined : Disciplined (State.setTodo { s with session } t rest)) :
    Secure ctx (State.setTodo { s with session } t rest) := by
  by_cases hhanded : Handed s.session
  · exact h.exec_sendReliable_encrypted htodo hhanded hsession hdisciplined
  · by_cases hlogin : payload.path = .login
    · exact h.exec_sendReliable_handshake htodo hhanded hlogin hsession hdisciplined
    · exact h.exec_sendReliable_before htodo hhanded hlogin hsession hdisciplined

/-! ## The worker's own instructions -/

theorem Secure.eq_worker {s : State σ ν} {i : Instr} {phase : Phase} (h : Secure ctx s)
    (htodo : s.todo t = i :: rest) (hphase : i.phase = some phase) (hne : phase ≠ .listener) :
    t = worker := by
  by_contra ht
  refine hne ((h.disciplined t).others ht phase ?_)
  simp [htodo, phases_cons, hphase]

/-- An instruction of the worker that changes nothing in the session. -/
theorem Secure.exec_worker {s : State σ ν} {i : Instr} (h : Secure ctx s)
    (htodo : s.todo worker = i :: rest) (hi : i.inFlight = false)
    (hfree : instrs.all Instr.free = true)
    (hprogress : Progress ctx s.session (phases (instrs ++ rest)))
    (hdisciplined : Disciplined (s.setTodo worker (instrs ++ rest))) :
    Secure ctx (s.setTodo worker (instrs ++ rest)) := by
  have hthread := h.disciplined worker
  rw [htodo] at hthread
  refine h.keep hdisciplined (.refl _) ?_ fun _ ↦ hprogress
  rw [flight_of_free hfree hthread.rest_settled, htodo, flight, hi]
  rfl

/-- What remains of the worker's list behind a packet that is being looked at. -/
theorem Secure.rest_of_dispatch {s : State σ ν} {i : Instr} (h : Secure ctx s)
    (htodo : s.todo worker = i :: rest) (hphase : i.phase = some .dispatch) : phases rest = [] := by
  have hprogress := h.progress
  rw [htodo, phases_cons, hphase] at hprogress
  exact Progress.dispatch_inv hprogress

theorem Secure.exec_dispatch {s : State σ ν} {i : Instr} (h : Secure ctx s)
    (htodo : s.todo t = i :: rest) (hphase : i.phase = some .dispatch) (hi : i.inFlight = false)
    (hinstrs : instrs.all Instr.free = true ∧ quiet (phases instrs) = true)
    (hdisciplined : Disciplined (s.setTodo t (instrs ++ rest))) :
    Secure ctx (s.setTodo t (instrs ++ rest)) := by
  obtain rfl := h.eq_worker htodo hphase nofun
  refine h.exec_worker htodo hi hinstrs.1 ?_ hdisciplined
  rw [phases_append, h.rest_of_dispatch htodo hphase, List.append_nil]
  exact progress_of_quiet hinstrs.2

theorem Secure.exec_sendPreCompression {s : State σ ν} {packetName : String}
    {value : ProtoDefValue} (h : Secure ctx s)
    (htodo : s.todo t = .sendPreCompression packetName value :: rest)
    (hcareful : ¬ Handed s.session)
    (hinstrs : instrs =
      if s.session.hasActivePlayer then [.encodePreCompression packetName value] else [])
    (hdisciplined : Disciplined (s.setTodo t (instrs ++ rest))) :
    Secure ctx (s.setTodo t (instrs ++ rest)) := by
  obtain rfl := h.eq_worker htodo rfl nofun
  refine h.exec_worker htodo rfl ?_ ?_ hdisciplined
  · rw [hinstrs]
    split <;> rfl
  · rw [phases_append, h.rest_of_dispatch htodo rfl, List.append_nil, hinstrs]
    split
    · exact .settings hcareful
    · exact .idle

theorem Secure.exec_encodePreCompression {s : State σ ν} {packetName : String}
    {value : ProtoDefValue} {bytes : List UInt8} (h : Secure ctx s)
    (htodo : s.todo t = .encodePreCompression packetName value :: rest)
    (hdisciplined : Disciplined (s.setTodo t (.checkWritable ⟨.preCompression, bytes⟩ :: rest))) :
    Secure ctx (s.setTodo t (.checkWritable ⟨.preCompression, bytes⟩ :: rest)) := by
  obtain rfl := h.eq_worker htodo rfl nofun
  have hprogress := h.progress
  rw [htodo, phases_cons] at hprogress
  change Progress ctx s.session (.settings :: phases rest) at hprogress
  refine ⟨hdisciplined, h.alone, h.enabled, ?_, fun hnow ↦ absurd hnow hprogress.settings_inv.1⟩
  simpa [State.setTodo, phases_cons, Instr.phase, SendPath.phase] using hprogress

theorem Secure.exec_installKeys {s : State σ ν} {verifiedLogin : BedrockLoginVerificationResult}
    (h : Secure ctx s) (htodo : s.todo t = .installKeys verifiedLogin :: rest)
    (hcareful : ¬ Handed s.session)
    (hperform : perform ctx t s.session (.installKeys verifiedLogin) = .next session instrs)
    (hdisciplined : Disciplined (State.setTodo { s with session } t (instrs ++ rest))) :
    Secure ctx (State.setTodo { s with session } t (instrs ++ rest)) := by
  obtain rfl := h.eq_worker htodo rfl nofun
  have hrest := h.rest_of_dispatch htodo rfl
  simp only [perform] at hperform
  split at hperform
  · obtain ⟨keys, stream, token, hstream, rfl, rfl⟩ := installSessionKeys_next hperform
    refine ⟨hdisciplined, h.alone, h.enabled, ?_, fun hnow ↦ absurd hnow hcareful⟩
    have hshaking : Progress ctx { s.session with
        encryptionKeys := keys, encryptStream := some stream, hasEncryptionKeys := true }
        [.shaking, .enabling] := .shaking hcareful ⟨rfl, stream, hstream, rfl⟩
    simpa [State.setTodo, phases_cons, hrest, Instr.phase, Critical.phase, SendPath.phase]
      using hshaking
  · cases hperform
    exact h.exec_dispatch htodo rfl rfl ⟨rfl, rfl⟩ hdisciplined

theorem Secure.exec_enableEncryption {s : State σ ν}
    {verifiedLogin : BedrockLoginVerificationResult} (h : Secure ctx s)
    (htodo : s.todo t = .enableEncryption verifiedLogin :: rest)
    (hinstrs : instrs =
      if s.session.hasWritablePlayer then [.startEncryption verifiedLogin] else [])
    (hdisciplined : Disciplined (s.setTodo t (instrs ++ rest))) :
    Secure ctx (s.setTodo t (instrs ++ rest)) := by
  obtain rfl := h.eq_worker htodo rfl nofun
  have hprogress := h.progress
  rw [htodo, phases_cons] at hprogress
  change Progress ctx s.session (.enabling :: phases rest) at hprogress
  obtain ⟨henabled, hkeyed, hhanded, hrest⟩ := hprogress.enabling_inv
  refine h.exec_worker htodo rfl ?_ ?_ hdisciplined
  · rw [hinstrs]
    split <;> rfl
  · rw [phases_append, hrest, List.append_nil, hinstrs]
    split
    · rename_i hwritable
      refine .starting henabled hkeyed (hhanded.resolve_right fun hdead ↦ ?_)
      rw [Dead, hwritable] at hdead
      cases hdead
    · exact .idle

/-- Encryption is switched on with the counter at zero. -/
theorem Secure.exec_startEncryption {s : State σ ν}
    {verifiedLogin : BedrockLoginVerificationResult} (h : Secure ctx s)
    (htodo : s.todo t = .startEncryption verifiedLogin :: rest)
    (hsession : session = { s.session with encryptionEnabled := true, sendCounter := 0 })
    (hdisciplined : Disciplined (State.setTodo { s with session } t
      (.listeners :: .publishLogin verifiedLogin :: rest))) :
    Secure ctx (State.setTodo { s with session } t
      (.listeners :: .publishLogin verifiedLogin :: rest)) := by
  obtain rfl := h.eq_worker htodo rfl nofun
  have hprogress := h.progress
  rw [htodo, phases_cons] at hprogress
  change Progress ctx s.session (.starting :: phases rest) at hprogress
  obtain ⟨hoff, ⟨hkeys, stream, hstarted, hstream⟩, hhanded, hrest⟩ := hprogress.starting_inv
  obtain ⟨-, -, ⟨-, hnothing, hwaiting⟩ | ⟨henabled, -⟩⟩ := h.transcript hhanded
  · have hflight {u : ℕ} {i : Instr} (hi : flight ((State.setTodo { s with session } worker
        (.listeners :: .publishLogin verifiedLogin :: rest)).todo u) = some i) :
        ∃ payload, i = .checkWritable payload ∧ Dead s.session := by
      by_cases hu : u = worker
      · subst hu
        simp [State.setTodo, flight, Instr.inFlight] at hi
      · refine hwaiting u i ?_
        simpa [State.setTodo, hu] using hi
    subst hsession
    refine ⟨hdisciplined, h.alone, fun _ ↦ hhanded, ?_, fun _ ↦ ?_⟩
    · refine progress_of_quiet ?_
      simp [State.setTodo, phases_cons, hrest, Instr.phase, quiet]
    · refine ⟨⟨stream, 0⟩, ⟨stream, [], [], hstarted, rfl, ?_⟩,
        .inr ⟨rfl, hkeys, stream, hstream, fun u p hp ↦ ?_, fun u p hp ↦ ?_, fun _ ↦ .inr rfl⟩⟩
      · simp [State.setTodo, hnothing]
      · obtain ⟨_, himpossible, -⟩ := hflight hp
        cases himpossible
      · obtain ⟨-, -, hdead⟩ := hflight hp
        exact .inl hdead
  · rw [hoff] at henabled
    cases henabled

theorem Secure.exec_next {s : State σ ν} {i : Instr} (h : Secure ctx s)
    (htodo : s.todo t = i :: rest) (hcareful : Careful ctx s (.exec t))
    (hperform : perform ctx t s.session i = .next session instrs)
    (hdisciplined : Disciplined (State.setTodo { s with session } t (instrs ++ rest))) :
    Secure ctx (State.setTodo { s with session } t (instrs ++ rest)) := by
  simp only [Careful, CarefulNext, htodo] at hcareful
  cases i with
  | enter critical => exact h.exec_enter htodo hperform hdisciplined
  | acquire critical => exact h.exec_acquire htodo hperform hdisciplined
  | encode => exact h.exec_encode htodo hperform hdisciplined
  | unlock =>
      cases hperform
      exact h.exec_unlock htodo hdisciplined
  | build => exact h.exec_build htodo hcareful.1 hperform hdisciplined
  | checkWritable payload =>
      by_cases hdead : Dead s.session
      · simp only [perform, show s.session.hasWritablePlayer = false from hdead] at hperform
        cases hperform
        exact h.exec_drop htodo hdead hdisciplined
      · simp only [perform, show s.session.hasWritablePlayer = true by simpa [Dead] using hdead]
          at hperform
        cases hperform
        exact h.exec_pass htodo hdead hdisciplined
  | sendReliable payload =>
      cases hperform
      exact h.exec_sendReliable htodo rfl hdisciplined
  | sendPreCompression =>
      cases hperform
      exact h.exec_sendPreCompression htodo hcareful rfl hdisciplined
  | encodePreCompression =>
      simp only [perform] at hperform
      split at hperform
      · cases hperform
      · cases hperform
        exact h.exec_encodePreCompression htodo hdisciplined
  | handleBuiltInPacket packet =>
      obtain ⟨rfl, hinstrs⟩ := dispatchPacket_next hperform
      exact h.exec_dispatch htodo rfl rfl hinstrs hdisciplined
  | handleLogin packet =>
      simp only [perform] at hperform
      split at hperform <;> cases hperform <;>
        exact h.exec_dispatch htodo rfl rfl ⟨rfl, rfl⟩ hdisciplined
  | verifyLogin login =>
      obtain ⟨rfl, hinstrs⟩ := verifyLoginData_next hperform
      exact h.exec_dispatch htodo rfl rfl hinstrs hdisciplined
  | installKeys => exact h.exec_installKeys htodo hcareful hperform hdisciplined
  | enableEncryption =>
      cases hperform
      exact h.exec_enableEncryption htodo rfl hdisciplined
  | startEncryption =>
      cases hperform
      exact h.exec_startEncryption htodo rfl hdisciplined
  | storeStatus nextStatus =>
      refine h.exec_plain htodo rfl rfl ?_ hperform hdisciplined
      rintro _ ⟨⟩
      exact hcareful
  | _ =>
      refine h.exec_plain htodo rfl rfl ?_ hperform hdisciplined
      rintro _ ⟨⟩

/-! ## Exceptions -/

theorem Secure.progress_throws {s : State σ ν} {i : Instr} (h : Secure ctx s)
    (htodo : s.todo worker = i :: rest) : Progress ctx s.session (phases (unwind rest)) := by
  have hprogress := h.progress
  rw [htodo, phases_cons] at hprogress
  rw [phases_unwind]
  cases hphase : i.phase with
  | none =>
      rw [hphase] at hprogress
      exact progress_dropWhile hprogress
  | some phase =>
      rw [hphase] at hprogress
      generalize phases rest = others at hprogress
      cases hprogress with
      | listener hprogress => exact progress_dropWhile hprogress
      | _ => exact .idle

/-- An exception that left the session alone. -/
theorem Secure.exec_unwind {s : State σ ν} {i : Instr} (h : Secure ctx s)
    (htodo : s.todo t = i :: rest) (hi : i.inFlight = false)
    (hdisciplined : Disciplined (s.setTodo t (unwind rest))) :
    Secure ctx (s.setTodo t (unwind rest)) := by
  have hthread := h.disciplined t
  rw [htodo] at hthread
  refine h.keep hdisciplined (.refl _) ?_ ?_
  · rw [flight_unwind hthread.rest_settled, htodo, flight, hi]
    rfl
  · rintro rfl
    exact h.progress_throws htodo

theorem Secure.exec_throws {s : State σ ν} {i : Instr} (h : Secure ctx s)
    (htodo : s.todo t = i :: rest) (hcareful : Careful ctx s (.exec t))
    (hperform : perform ctx t s.session i = .throws session)
    (hdisciplined : Disciplined (State.setTodo { s with session } t (unwind rest))) :
    Secure ctx (State.setTodo { s with session } t (unwind rest)) := by
  simp only [Careful, CarefulNext, htodo] at hcareful
  cases i with
  | build path packets compression =>
      rcases buildPayload_throws hperform with rfl | ⟨-, hrefused⟩
      · exact h.exec_unwind htodo rfl hdisciplined
      · rw [hcareful.2] at hrefused
        cases hrefused
  | installKeys verifiedLogin =>
      obtain rfl := h.eq_worker htodo rfl (by simp)
      have hprogress := h.rest_of_dispatch htodo rfl
      simp only [perform] at hperform
      split at hperform
      · obtain ⟨keys, stream, has, rfl⟩ := installSessionKeys_throws hperform
        refine ⟨hdisciplined, h.alone, h.enabled, ?_, fun hnow ↦ absurd hnow hcareful⟩
        have hidle : Progress ctx { s.session with
            encryptionKeys := keys, encryptStream := stream, hasEncryptionKeys := has }
            (phases (unwind rest)) := by
          rw [phases_unwind, hprogress]
          exact .idle
        simpa [State.setTodo] using hidle
      · cases hperform
  | handleBuiltInPacket packet =>
      simp only [perform, dispatchPacket] at hperform
      repeat' split at hperform
      all_goals cases hperform
      all_goals exact h.exec_unwind htodo rfl hdisciplined
  | verifyLogin login =>
      simp only [perform, verifyLoginData] at hperform
      repeat' split at hperform
      all_goals cases hperform
  | _ =>
      simp only [perform] at hperform
      repeat' split at hperform
      all_goals cases hperform
      all_goals exact h.exec_unwind htodo rfl hdisciplined

/-! ## Runs -/

/-- The worker starts on something new. -/
theorem Secure.begin_ {s : State σ ν} (h : Secure ctx s)
    (hempty : (s.todo worker).isEmpty = true) (hfree : instrs.all Instr.free = true)
    (hquiet : quiet (phases instrs) = true) : Secure ctx (s.setTodo worker instrs) := by
  have hnil : s.todo worker = [] := List.isEmpty_iff.mp hempty
  refine h.keep (disciplined_begin h.disciplined hempty hfree) (.refl _) ?_ fun _ ↦
    progress_of_quiet hquiet
  rw [hnil, flight_rest fun j hj ↦ (free_iff.mp (List.all_eq_true.mp hfree j hj)).1]
  rfl

theorem Secure.call {s : State σ ν} (h : Secure ctx s) (happ : inApplication t (s.todo t) = true)
    (call : Call) : Secure ctx (s.setTodo t (call.body ++ s.todo t)) := by
  have hplain := call.plain_body
  refine h.keep (disciplined_setTodo h.disciplined ((h.disciplined t).call happ call) fun _ _ ↦ rfl)
    (.refl _) ?_ ?_
  · have hsettled : ∀ j ∈ s.todo t, j.inFlight = false := by
      intro j hj
      cases htodo : s.todo t with
      | nil =>
          rw [htodo] at hj
          cases hj
      | cons i rest =>
          have hthread := h.disciplined t
          rw [htodo] at hj happ hthread
          rcases List.mem_cons.mp hj with rfl | hj
          · cases j <;> first | rfl | cases happ
          · exact hthread.rest_settled j hj
    rw [flight_of_free (all_free_of_plain hplain) hsettled]
    exact (flight_rest hsettled).symm
  · rintro rfl
    rw [phases_append, progress_listeners (listener_of_mem_phases hplain)]
    exact h.progress

theorem secure_step {s : State σ ν} (h : Secure ctx s) {label : Label}
    (hcareful : Careful ctx s label) : Secure ctx (step ctx s label) := by
  have hdisciplined : Disciplined (step ctx s label) := disciplined_step h.disciplined label
  cases label with
  | receive packet =>
      simp only [step]
      split
      · rename_i hready
        exact h.begin_ (Bool.and_eq_true_iff.mp hready).1 rfl rfl
      · exact h
  | undecodable | wrongChecksum | peerClosed =>
      simp only [step]
      split
      · exact h.begin_ ‹_› rfl rfl
      · exact h
  | reopened writable =>
      obtain rfl : writable = false := hcareful
      have hsame : { s.session with successorWritable := false } = s.session := by
        rw [← h.alone]
      simpa only [step, hsame] using h
  | call t call =>
      simp only [step]
      split
      · exact h.call ‹_› call
      · exact h
  | exec t =>
      simp only [step] at hdisciplined ⊢
      split
      · exact h
      · rename_i i rest htodo
        simp only [htodo] at hdisciplined
        split
        · exact h
        · rename_i session instrs hperform
          simp only [hperform] at hdisciplined
          exact h.exec_next htodo hcareful hperform hdisciplined
        · rename_i session hperform
          simp only [hperform] at hdisciplined
          exact h.exec_throws htodo hcareful hperform hdisciplined
  | throwing t =>
      simp only [step] at hdisciplined ⊢
      split
      · rename_i rest htodo
        simp only [htodo] at hdisciplined
        exact h.exec_unwind htodo rfl hdisciplined
      · exact h

theorem secure_opened (compressor : CompressorOptions) (protoDefVariables : ν) :
    Secure ctx (opened compressor protoDefVariables) where
  disciplined := disciplined_opened compressor protoDefVariables
  alone := rfl
  enabled := nofun
  progress := Progress.listener .idle
  transcript := by
    rintro ⟨payload, hpayload, -⟩
    cases hpayload

/-- In every state that a careful run reaches, every payload after the handshake is
the next one of the session's cipher stream, with the counters 0, 1, 2, …. -/
theorem secret_of_careful (ctx : Context σ Key ν) (compressor : CompressorOptions)
    (protoDefVariables : ν) (labels : List Label)
    (hcareful : AllSteps (step ctx) (Careful ctx) (opened compressor protoDefVariables) labels) :
    Secret ctx (run (step ctx) (opened compressor protoDefVariables) labels).session := by
  have hstep (s : State σ ν) (label : Label) (h : Secure ctx s) (hcareful : Careful ctx s label) :
      Secure ctx (step ctx s label) := secure_step h hcareful
  have hsecure := invariant_run hstep (secure_opened compressor protoDefVariables) hcareful
  intro hhanded
  obtain ⟨sender, hencrypts, -⟩ := hsecure.transcript hhanded
  exact ⟨sender, hencrypts⟩

end Secrecy

/-! ## A client that asks for the network settings twice -/

/-- The packets of the handshake. -/
def handshakeDefinition : ProtocolVersionInfo where
  minecraftVersion := "1.21.93"
  packets := [
    ⟨1, "login", "packet_login"⟩,
    ⟨2, "play_status", "packet_play_status"⟩,
    ⟨3, "server_to_client_handshake", "packet_server_to_client_handshake"⟩,
    ⟨4, "client_to_server_handshake", "packet_client_to_server_handshake"⟩,
    ⟨5, "disconnect", "packet_disconnect"⟩,
    ⟨113, "set_local_player_as_initialized", "packet_set_local_player_as_initialized"⟩,
    ⟨143, "network_settings", "packet_network_settings"⟩,
    ⟨193, "request_network_settings", "packet_request_network_settings"⟩]
  id_lt := by decide
  ids_nodup := by decide

/-- A server of that version for offline players, with stand-ins for the
cryptography: a stream that inverts every byte and a digest of zeros. -/
def sampleContext : Context Unit (List UInt8) Unit where
  options := ⟨"1.21.93", true, true, false⟩
  mcpeCodec := ⟨handshakeDefinition, true, by decide⟩
  configuredServerProtocolVersion := 819
  evp := ⟨fun _ _ _ _ ↦ .ok (), fun _ input ↦ .ok (input.map (· ^^^ 0xff), ())⟩
  sha256 := fun _ ↦ List.replicate 32 0
  zlib := Zlib.stored
  openssl := BedrockLoginVerifier.attackerOpenSsl
  deriveKeys := fun _ ↦ .ok ⟨List.replicate 32 0, List.replicate 16 0⟩
  handshakeToken := .ok (txt "token")
  encodePacket := fun _ packetName _ ↦
    if packetName = "network_settings" then .ok [0x00, 0x02, 0, 0, 0, 0, 0, 0, 0, 0]
    else if packetName = "server_to_client_handshake" then .ok (5 :: txt "token")
    else if packetName = "play_status" then .ok [0, 0, 0, 0]
    else .error "packet schema not found"
  decodePacket := fun _ _ ↦ .ok ()
  updateItemPaletteVariables := fun _ _ ↦ .ok ()

/-- The options of a server that sets none of its own. -/
def sampleCompressor : CompressorOptions := ⟨"deflate", 7, 512⟩

def sampleSession : State Unit Unit := opened sampleCompressor ()

/-- A packet of the client's. -/
def inbound (packetId : ℕ) (payload : List UInt8) : VersionedGamePacket where
  packetId
  name := handshakeDefinition.packetName packetId
  paramsType := handshakeDefinition.packetParamsType packetId
  fullPacket := leb128 4 packetId ++ payload
  payload

def requestPacket : VersionedGamePacket := inbound 193 [0, 0, 0x03, 0x33]

open BedrockLoginVerifier in
/-- A login with a chain of one token, self-signed. -/
def loginPacket : VersionedGamePacket :=
  let identity := txt "\x7b\"chain\":[\"" ++ selfSignedToken ++ txt "\"]\x7d"
  inbound 1 ((LoginPacketCodec.encode 819 identity clientToken).toOption.getD [] |>.tail)

/-- The worker takes a packet and runs for a while. -/
def handling (packet : VersionedGamePacket) (steps : ℕ) : List Label :=
  .receive packet :: List.replicate steps (.exec worker)

def askingTwice : List Label :=
  .exec worker :: handling requestPacket 6 ++ handling loginPacket 23 ++ handling requestPacket 6

/-- The network settings in the clear. -/
def settingsPayload : WirePayload :=
  ⟨.preCompression, [0xfe, 12, 143, 1, 0, 2, 0, 0, 0, 0, 0, 0, 0, 0]⟩

theorem wire_askingTwice : (run (step sampleContext) sampleSession askingTwice).session.wire =
    [settingsPayload, ⟨.login, [0xfe, 255, 7, 3, 5, 116, 111, 107, 101, 110]⟩,
      settingsPayload] := by
  decide +kernel

/-- What the sample's stream produces ends in the inverted checksum. -/
theorem getLast_of_send {key packet encrypted : List UInt8} {sender sender' : Endpoint Unit}
    (h : send sampleContext.sha256 sampleContext.evp key sender packet = .ok (encrypted, sender')) :
    encrypted.getLast? = some 0xff := by
  simp only [send] at h
  obtain ⟨plain, hplain, hrest⟩ := bind_eq_ok.mp h
  obtain ⟨⟨out, stream⟩, hprocess, hsame⟩ := bind_eq_ok.mp hrest
  obtain ⟨rfl, -⟩ := Prod.mk.inj (Except.ok.inj hsame)
  have hshape : plain = packet ++ List.replicate 8 0 := by
    simp only [makeAesPlaintext] at hplain
    obtain ⟨check, hcheck, hplain⟩ := bind_eq_ok.mp hplain
    unfold computeChecksum at hcheck
    split at hcheck
    · cases hcheck
    · obtain rfl := Except.ok.inj hcheck
      exact (Except.ok.inj hplain).symm
  have hout : out = plain.map (· ^^^ 0xff) := by
    unfold process at hprocess
    rw [if_neg (by simp [hshape])] at hprocess
    obtain ⟨⟨bytes, ctx⟩, hupdate, hsame⟩ := bind_eq_ok.mp hprocess
    obtain ⟨rfl, -⟩ := Prod.mk.inj (Except.ok.inj hsame)
    exact (Prod.mk.inj (Except.ok.inj hupdate)).1.symm
  rw [hout, hshape, List.map_append, List.map_replicate, List.getLast?_append]
  rfl

/-- After its login the client is answered in the clear. -/
theorem asking_again_not_secret :
    Handed (run (step sampleContext) sampleSession askingTwice).session ∧
      ¬ Secret sampleContext (run (step sampleContext) sampleSession askingTwice).session := by
  have hhanded : Handed (run (step sampleContext) sampleSession askingTwice).session := by
    simp [Handed, wire_askingTwice]
  refine ⟨hhanded, fun hsecret ↦ ?_⟩
  obtain ⟨sender, stream, batches, encrypted, -, hall, hbytes⟩ := hsecret hhanded
  rw [wire_askingTwice] at hbytes
  cases batches with
  | nil =>
      obtain ⟨rfl, -⟩ := Prod.mk.inj (Except.ok.inj hall)
      cases hbytes
  | cons batch batches =>
      simp only [sendAll] at hall
      obtain ⟨⟨first, next⟩, hfirst, hrest⟩ := bind_eq_ok.mp hall
      obtain ⟨⟨others, last⟩, -, hsame⟩ := bind_eq_ok.mp hrest
      obtain ⟨rfl, -⟩ := Prod.mk.inj (Except.ok.inj hsame)
      have hlast := getLast_of_send hfirst
      have hclear : settingsPayload.bytes.tail = first :=
        (List.cons.inj (List.cons.inj hbytes).1).2
      rw [← hclear] at hlast
      cases hlast

/-- A client that asks once and logs in, and a payload that another thread sends
afterwards. -/
def sendingAfterLogin : List Label :=
  .exec worker :: handling requestPacket 6 ++ handling loginPacket 23 ++
    .call 1 (.send "play_status" (playStatusValue "login_success") .automatic) ::
      List.replicate 11 (.exec 1)

theorem secret_of_careful_sendingAfterLogin :
    Handed (run (step sampleContext) sampleSession sendingAfterLogin).session ∧
      (afterHandshake
        (run (step sampleContext) sampleSession sendingAfterLogin).session.wire).length = 1 ∧
      Secret sampleContext (run (step sampleContext) sampleSession sendingAfterLogin).session :=
  ⟨by decide +kernel, by decide +kernel,
    secret_of_careful sampleContext sampleCompressor () sendingAfterLogin (by decide +kernel)⟩

end BedrockProtocol.BedrockServer
