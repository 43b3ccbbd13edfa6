import Nilix.Net.ConntrackIsolation

/-!
# Connection tracking: no forged sessions

A packet is classified as `Established` only in a session state, and an entry enters the session
states only by a handshake that this host completed: a local SYN or SYN-ACK was finalised before, and
the last step was a finalised local ACK or a confirmation by the socket.  `EntryOk` ties the state of
an entry to the log since its creation, `PendingOk` says the same of the transition a queued packet
waits for, and both are kept by every section of every call.
-/

namespace Nilix.Net.Ct

open ConntrackTable List Option

variable {E : Type}

/-! ## Session states -/

/-- The states from an established connection to its graceful close. -/
def CtProtoState.isSession : CtProtoState → Bool
  | .tcp .established | .tcp .finWait | .tcp .finWait2 | .tcp .closeWait | .tcp .lastAck => true
  | _ => false

/-- A packet that completes a handshake that waits for its last ACK. -/
def Completes (state : CtProtoState) (handshake : TcpLocalHandshake) (dir : ConntrackDir)
    (l4 : L4Meta) : Prop :=
  state = .tcp .synRecv ∧ handshake = .complete ∧ dir = .original ∧ l4.isAck = true ∧
    l4.isSyn = false

variable {dir : ConntrackDir} {l4 : L4Meta} {s : TcpCtState} {hs : TcpLocalHandshake}

/-- A session state is entered, and a packet of no session classified as `Established`, by completing
a handshake. -/
lemma isSession_tcpNextState (h : (CtProtoState.tcp (tcpNextState s hs dir l4)).isSession = true ∨
      tcpDecision (tcpNextState s hs dir l4) s l4 = .established) :
    (CtProtoState.tcp s).isSession = true ∨ Completes (.tcp s) hs dir l4 := by
  cases s with
  | synRecv =>
    cases dir with
    | original =>
      dsimp only [tcpNextState] at h
      split_ifs at h with hcomplete
      · obtain ⟨hhs, hack, hsyn⟩ := hcomplete
        exact .inr ⟨rfl, hhs, rfl, hack, Bool.eq_false_of_not_eq_true hsyn⟩
      · exact h.elim nofun nofun
    | reply => exact h.elim nofun nofun
  | synSent =>
    cases dir with
    | original => exact h.elim nofun nofun
    | reply =>
      dsimp only [tcpNextState] at h
      split_ifs at h <;> exact h.elim nofun nofun
  | none | timeWait | close => cases dir <;> exact h.elim nofun nofun
  | _ => exact .inl rfl

/-- A handshake that waits for its last ACK has not been completed. -/
lemma tcpNextState_eq_synRecv (h : tcpNextState s hs dir l4 = .synRecv) :
    hs ≠ .complete ∨ s = .synRecv ∧ ¬ Completes (.tcp s) hs dir l4 := by
  cases s with
  | synSent =>
    cases dir with
    | original => cases h
    | reply =>
      dsimp only [tcpNextState] at h
      split_ifs at h with hfirst hsecond
      · exact .inl fun heq => by simp [heq] at hfirst
      · exact .inl fun heq => by simp [heq] at hsecond
  | synRecv =>
    refine .inr ⟨rfl, fun hcompletes => ?_⟩
    obtain ⟨-, hhs, rfl, hack, hsyn⟩ := hcompletes
    dsimp only [tcpNextState] at h
    rw [if_pos ⟨hhs, hack, by simp [hsyn]⟩] at h
    cases h
  | none | timeWait | close => cases dir <;> cases h
  | _ =>
    exfalso
    cases dir <;> (dsimp only [tcpNextState] at h; first | split_ifs at h | cases h)

variable {e : ConntrackEntry}

/-- The same of every entry; other protocols have no session. -/
lemma isSession_transition {proto : ℕ}
    (h : (transitionStateWithHandshake e dir proto l4 hs).1.isSession = true ∨ proto = ipprotoTcp ∧
      (transitionStateWithHandshake e dir proto l4 hs).2 = .established) :
    e.state.isSession = true ∨ Completes e.state hs dir l4 := by
  unfold transitionStateWithHandshake at h
  generalize e.state = state at h ⊢
  cases state with
  | tcp =>
    dsimp only at h
    split_ifs at h with hproto
    · unfold tcpTransition at h
      split_ifs at h with hrst
      · exact .inl (h.resolve_right nofun)
      · exact isSession_tcpNextState (h.imp_right And.right)
    · exact .inl (h.resolve_right nofun)
  | udp | icmp =>
    rcases h with h | ⟨rfl, h⟩
    · dsimp only at h
      split_ifs at h <;> cases h
    · cases h
  | other =>
    exact h.elim nofun nofun

/-- A transition into, or a stay in, the state that waits for the last ACK. -/
lemma transition_eq_synRecv {proto : ℕ}
    (h : (transitionStateWithHandshake e dir proto l4 hs).1 = .tcp .synRecv) :
    hs ≠ .complete ∨ e.state = .tcp .synRecv ∧
      (proto = ipprotoTcp → l4.isRst = false → ¬ Completes e.state hs dir l4) := by
  unfold transitionStateWithHandshake at h
  generalize e.state = state at h ⊢
  cases state with
  | tcp =>
    dsimp only at h
    split_ifs at h with hproto
    · unfold tcpTransition at h
      split_ifs at h with hrst
      · exact .inr ⟨h, fun _ hfalse => absurd (hfalse.symm.trans hrst) nofun⟩
      rcases tcpNextState_eq_synRecv (CtProtoState.tcp.inj h) with hne | ⟨rfl, hnot⟩
      · exact .inl hne
      · exact .inr ⟨rfl, fun _ _ => hnot⟩
    · exact .inr ⟨h, fun heq => absurd heq hproto⟩
  | udp | icmp =>
    dsimp only at h
    split_ifs at h
    cases h
  | other =>
    cases h

/-! ## The log since the creation of an entry -/

/-- The lines since the last creation of an entry of the flow, newest first; `none` if there was
none. -/
def sinceCreation (key : FlowKey) : List (Mark E) → Option (List (Mark E))
  | [] => none
  | .created k :: log => if k = key then some [] else (sinceCreation key log).map (.created k :: ·)
  | mark :: log => (sinceCreation key log).map (mark :: ·)

/-- A local SYN or SYN-ACK of the flow was finalised. -/
def LocalSyn (key : FlowKey) (recent : List (Mark E)) : Prop :=
  ∃ l4 state dir, Mark.finalized key l4 state dir ∈ recent ∧ l4.isSyn = true

/-- The handshake was completed locally: by a finalised local ACK that answers a SYN-ACK, or by the
socket. -/
def LocallyCompleted (key : FlowKey) (recent : List (Mark E)) : Prop :=
  (∃ l4, Mark.finalized key l4 (.tcp .synRecv) .original ∈ recent ∧ l4.isAck = true ∧
    l4.isSyn = false) ∨ Mark.handshake key ∈ recent

/-- Since its creation, the flow saw a local SYN. -/
def HasSyn (log : List (Mark E)) (key : FlowKey) : Prop :=
  ∃ recent, sinceCreation key log = some recent ∧ LocalSyn key recent

/-- Since its creation, the flow saw a local SYN and a local completion. -/
def Earned (log : List (Mark E)) (key : FlowKey) : Prop :=
  ∃ recent, sinceCreation key log = some recent ∧ LocalSyn key recent ∧ LocallyCompleted key recent

/-- A SYN-ACK that leaves a session a session. -/
def reopens (l4 : L4Meta) (state : CtProtoState) (dir : ConntrackDir) : Bool :=
  match state with
  | .tcp s => l4.isSyn && l4.isAck && !l4.isRst &&
      (CtProtoState.tcp (tcpNextState s .synAckQueued dir l4)).isSession
  | _ => false

/-- Such a local packet of the flow was finalised. -/
def Mark.reopens (key : FlowKey) : Mark E → Bool
  | .finalized k l4 state dir => decide (k = key) && Ct.reopens l4 state dir
  | _ => false

section Log

variable {log : List (Mark E)} {mark : Mark E} {key : FlowKey}

/-- A line that is not a creation of the flow is one line more. -/
lemma sinceCreation_cons (h : mark ≠ .created key) :
    sinceCreation key (mark :: log) = (sinceCreation key log).map (mark :: ·) := by
  cases mark with
  | created => exact if_neg fun heq => h (congrArg Mark.created heq)
  | _ => rfl

lemma sinceCreation_created : sinceCreation key (.created key :: log) = some [] := if_pos rfl

lemma LocalSyn.cons {recent : List (Mark E)} (h : LocalSyn key recent) (mark : Mark E) :
    LocalSyn key (mark :: recent) := by
  obtain ⟨l4, state, dir, hmem, hsyn⟩ := h
  exact ⟨l4, state, dir, mem_cons_of_mem _ hmem, hsyn⟩

lemma LocallyCompleted.cons {recent : List (Mark E)} (h : LocallyCompleted key recent)
    (mark : Mark E) : LocallyCompleted key (mark :: recent) := by
  rcases h with ⟨l4, hmem, hack, hsyn⟩ | hmem
  · exact .inl ⟨l4, mem_cons_of_mem _ hmem, hack, hsyn⟩
  · exact .inr (mem_cons_of_mem _ hmem)

lemma HasSyn.cons (h : HasSyn log key) (hmark : mark ≠ .created key) :
    HasSyn (mark :: log) key := by
  obtain ⟨recent, hrecent, hsyn⟩ := h
  refine ⟨mark :: recent, ?_, hsyn.cons mark⟩
  rw [sinceCreation_cons hmark, hrecent]
  rfl

lemma Earned.cons (h : Earned log key) (hmark : mark ≠ .created key) :
    Earned (mark :: log) key := by
  obtain ⟨recent, hrecent, hsyn, hcompleted⟩ := h
  refine ⟨mark :: recent, ?_, hsyn.cons mark, hcompleted.cons mark⟩
  rw [sinceCreation_cons hmark, hrecent]
  rfl

lemma HasSyn.of_finalized {l4 : L4Meta} {state : CtProtoState} {dir : ConntrackDir}
    (hborn : sinceCreation key log ≠ none) (hsyn : l4.isSyn = true) :
    HasSyn (.finalized key l4 state dir :: log) key := by
  obtain ⟨recent, hrecent⟩ := ne_none_iff_exists'.mp hborn
  refine ⟨.finalized key l4 state dir :: recent, ?_, l4, state, dir, mem_cons_self, hsyn⟩
  rw [sinceCreation_cons (fun heq : Mark.finalized key l4 state dir = .created key => nomatch heq),
    hrecent]
  rfl

lemma HasSyn.earned_cons (h : HasSyn log key) (hmark : mark ≠ .created key)
    (hcompleted : LocallyCompleted key [mark]) : Earned (mark :: log) key := by
  obtain ⟨recent, hrecent, hsyn⟩ := h
  refine ⟨mark :: recent, ?_, hsyn.cons mark, ?_⟩
  · rw [sinceCreation_cons hmark, hrecent]
    rfl
  rcases hcompleted with ⟨l4, hmem, hack, hnot⟩ | hmem
  · rw [mem_singleton] at hmem
    exact .inl ⟨l4, hmem ▸ mem_cons_self, hack, hnot⟩
  rw [mem_singleton] at hmem
  exact .inr (hmem ▸ mem_cons_self)

lemma sinceCreation_ne_none_cons (h : sinceCreation key log ≠ none) (mark : Mark E) :
    sinceCreation key (mark :: log) ≠ none := by
  by_cases hmark : mark = .created key
  · rw [hmark, sinceCreation_created]
    exact nofun
  rw [sinceCreation_cons hmark]
  simpa using h

end Log

/-! ## Entries and queued packets -/

/-- The state of an entry is justified by the log since its creation. -/
structure EntryOk (log : List (Mark E)) (key : FlowKey) (e : ConntrackEntry) : Prop where
  /-- Its creation is on record, unless a queued packet is to publish it. -/
  born : e.pendingEgress = none → sinceCreation key log ≠ none
  /-- Local evidence comes from a local SYN. -/
  syn : e.tcpLocalHandshake ≠ .none → HasSyn log key
  /-- The last ACK is not local evidence before it was sent. -/
  recv : e.state = .tcp .synRecv → e.tcpLocalHandshake ≠ .complete
  /-- A session was earned. -/
  session : e.state.isSession = true → Earned log key
  /-- It has its evidence, unless a SYN-ACK took it back. -/
  complete : e.state.isSession = true → e.tcpLocalHandshake = .complete ∨
    log.any (Mark.reopens key) = true
  /-- With local evidence the flow has a generation. -/
  generation : e.tcpLocalHandshake ≠ .none → e.tcpGeneration ≠ 0

/-- What a queued packet will do to its entry is justified once it is finalised. -/
structure PendingOk (l4 : L4Meta) (created : Bool) (e : ConntrackEntry) (pending : PendingEgress) :
    Prop where
  handshake : pending.tcpHandshake ≠ .none → e.tcpLocalHandshake ≠ .none ∨ l4.isSyn = true
  recv : pending.newState = .tcp .synRecv → pending.tcpHandshake ≠ .complete
  session : pending.newState.isSession = true → e.state.isSession = true ∨
    e.state = .tcp .synRecv ∧ pending.stateDir = .original ∧ l4.isAck = true ∧ l4.isSyn = false ∧
      e.tcpLocalHandshake ≠ .none
  complete : pending.newState.isSession = true → pending.tcpHandshake = .complete ∨
    reopens l4 e.state pending.stateDir = true ∨
      e.state.isSession = true ∧ e.tcpLocalHandshake ≠ .complete
  token : pending.token ≠ 0
  /-- A provisional entry has no past. -/
  fresh : created = true → e.tcpLocalHandshake = .none ∧ e.state.isSession = false

section Entries

variable {log : List (Mark E)} {key : FlowKey} {e : ConntrackEntry}

lemma EntryOk.cons (h : EntryOk log key e) {mark : Mark E} (hmark : mark ≠ .created key) :
    EntryOk (mark :: log) key e where
  born hnone := sinceCreation_ne_none_cons (h.born hnone) mark
  syn hne := (h.syn hne).cons hmark
  recv := h.recv
  session hs := (h.session hs).cons hmark
  complete hs := (h.complete hs).imp_right fun h => by simp [h]
  generation := h.generation

lemma EntryOk.append (h : EntryOk log key e) {marks : List (Mark E)}
    (hmarks : .created key ∉ marks) : EntryOk (marks ++ log) key e := by
  induction marks with
  | nil => exact h
  | cons mark marks ih =>
    exact (ih fun hmem => hmarks (mem_cons_of_mem _ hmem)).cons
      fun heq => hmarks (heq ▸ mem_cons_self)

/-- The same evidence in a state that asks for none. -/
lemma EntryOk.of_closed (h : EntryOk log key e) {e' : ConntrackEntry}
    (hpending : e'.pendingEgress = none → e.pendingEgress = none)
    (hhandshake : e'.tcpLocalHandshake = e.tcpLocalHandshake)
    (hgeneration : e'.tcpGeneration = e.tcpGeneration)
    (hsession : e'.state.isSession = false) (hrecv : e'.state ≠ .tcp .synRecv) :
    EntryOk log key e' where
  born hnone := h.born (hpending hnone)
  syn hne := h.syn (hhandshake ▸ hne)
  recv heq := absurd heq hrecv
  session hs := nomatch hsession.symm.trans hs
  complete hs := nomatch hsession.symm.trans hs
  generation hne := hgeneration ▸ h.generation (hhandshake ▸ hne)

variable {l4 : L4Meta} {proto : ℕ} {initial : CtProtoState}

lemma isSession_of_initialState
    (h : initialState proto l4 = some initial) : initial.isSession = false := by
  unfold initialState at h
  split_ifs at h <;>
  · rw [← some.inj h]
    rfl

lemma EntryOk.of_initial (hstate : initialState proto l4 = some e.state)
    (hnone : e.tcpLocalHandshake = .none) : EntryOk (.created key :: log) key e where
  born _ := by
    rw [sinceCreation_created]
    exact some_ne_none _
  syn hne := absurd hnone hne
  recv _ := by
    rw [hnone]
    decide
  session hs := nomatch (isSession_of_initialState hstate).symm.trans hs
  complete hs := nomatch (isSession_of_initialState hstate).symm.trans hs
  generation hne := absurd hnone hne

/-- An ingress packet keeps the justification of its entry. -/
lemma EntryOk.ingress (h : EntryOk log key e) (dir : ConntrackDir) (proto : ℕ) (l4 : L4Meta)
    {e' : ConntrackEntry} (hstate : e'.state = (transitionState e dir proto l4).1)
    (hhandshake : e'.tcpLocalHandshake = e.tcpLocalHandshake)
    (hgeneration : e'.tcpGeneration = e.tcpGeneration)
    (hpending : e'.pendingEgress = e.pendingEgress) : EntryOk log key e' := by
  have hold : e'.state.isSession = true → e.state.isSession = true := fun hs => by
    rw [hstate] at hs
    rcases isSession_transition (.inl hs) with hsession | ⟨hrecv, hcomplete, -⟩
    · exact hsession
    · exact absurd hcomplete (h.recv hrecv)
  refine ⟨fun hnone => h.born (hpending ▸ hnone), fun hne => h.syn (hhandshake ▸ hne), fun heq => ?_,
    fun hs => h.session (hold hs), fun hs => hhandshake ▸ h.complete (hold hs),
    fun hne => hgeneration ▸ h.generation (hhandshake ▸ hne)⟩
  rw [hhandshake]
  rw [hstate] at heq
  rcases transition_eq_synRecv heq with hne | ⟨hrecv, -⟩
  · exact hne
  · exact h.recv hrecv

variable {dir : ConntrackDir}

/-- An ingress packet is classified as `Established` in an earned session only. -/
lemma EntryOk.established (h : EntryOk log key e)
    (hdecision : (transitionState e dir ipprotoTcp l4).2 = .established) : Earned log key := by
  rcases isSession_transition (.inr ⟨rfl, hdecision⟩) with hsession | ⟨hrecv, hcomplete, -⟩
  · exact h.session hsession
  · exact absurd hcomplete (h.recv hrecv)

lemma EntryOk.confirm (h : EntryOk log key e) (hpending : e.pendingEgress = none)
    (hhandshake : e.tcpLocalHandshake = .synAckQueued) :
    EntryOk (.handshake key :: log) key
      { e with state := .tcp .established, tcpLocalHandshake := .complete } := by
  have hlocal : e.tcpLocalHandshake ≠ .none := by simp [hhandshake]
  have hsyn := h.syn hlocal
  refine ⟨fun _ => sinceCreation_ne_none_cons (h.born hpending) _, fun _ => hsyn.cons nofun,
    nofun, fun _ => hsyn.earned_cons nofun ?_, fun _ => .inl rfl, fun _ => h.generation hlocal⟩
  exact .inr (mem_singleton.mpr rfl)

/-! ### Queued packets -/

/-- How the evidence of a queued packet becomes complete. -/
lemma egressTcpHandshake_eq_complete (h : egressTcpHandshake e dir proto l4 = .complete) :
    e.tcpLocalHandshake = .complete ∨
      proto = ipprotoTcp ∧ Completes e.state .complete dir l4 ∧ e.tcpLocalHandshake = .synQueued := by
  unfold egressTcpHandshake at h
  split_ifs at h with hproto hsyn hsynAck hack
  · exact .inl h
  · cases hlocal : e.tcpLocalHandshake with
    | complete => exact .inl rfl
    | _ =>
      rw [hlocal] at h
      cases h
  · obtain ⟨hack, hnot, hstate, hdir, hqueued⟩ := hack
    exact .inr ⟨not_not.mp hproto, ⟨hstate, rfl, hdir, hack, by simpa using hnot⟩, hqueued⟩
  · exact .inl h

lemma egressTcpHandshake_ne_none (h : egressTcpHandshake e dir proto l4 ≠ .none) :
    e.tcpLocalHandshake ≠ .none ∨ l4.isSyn = true := by
  unfold egressTcpHandshake at h
  split_ifs at h with hproto hsyn hsynAck hack
  · exact .inl h
  · exact .inr hsyn.1
  · exact .inr hsynAck.1
  · refine .inl ?_
    rw [hack.2.2.2.2]
    decide
  · exact .inl h

/-- Only a SYN-ACK takes complete evidence back. -/
lemma egressTcpHandshake_of_complete (h : e.tcpLocalHandshake = .complete) :
    egressTcpHandshake e dir proto l4 = .complete ∨ proto = ipprotoTcp ∧ l4.isSyn = true ∧
      l4.isAck = true ∧ egressTcpHandshake e dir proto l4 = .synAckQueued := by
  unfold egressTcpHandshake
  rw [h]
  split_ifs with hproto hsyn hsynAck hack
  · exact .inl rfl
  · exact .inl rfl
  · exact .inr ⟨not_not.mp hproto, hsynAck.1, hsynAck.2, rfl⟩
  · exact .inl rfl
  · exact .inl rfl

/-- A SYN-ACK that stays in a session reopens it. -/
lemma reopens_of_transition (hsyn : l4.isSyn = true) (hack : l4.isAck = true)
    (hrst : l4.isRst = false) (h : (transitionStateWithHandshake e dir ipprotoTcp l4
      .synAckQueued).1.isSession = true) : reopens l4 e.state dir = true := by
  unfold transitionStateWithHandshake at h
  generalize e.state = state at h ⊢
  cases state with
  | tcp =>
    simp only [if_true, tcpTransition, hrst, Bool.false_eq_true, if_false] at h
    simp [reopens, hsyn, hack, hrst, h]
  | udp | icmp =>
    cases h
  | other =>
    cases h

lemma EntryOk.pendingOk (h : EntryOk log key e) (p : Packet) {token : ℕ} (htoken : token ≠ 0) :
    PendingOk p.l4 false e (egressPending e p token) := by
  -- Without a local RST the new state is that of the transition.
  have hstate : ∀ s, (egressPending e p token).newState = s → s ≠ .tcp .close →
      ¬ (p.proto = ipprotoTcp ∧ p.l4.isRst = true) ∧
      (transitionStateWithHandshake e (e.stateDir p.dir) p.proto p.l4
        (egressTcpHandshake e (e.stateDir p.dir) p.proto p.l4)).1 = s := by
    intro s hs hne
    unfold egressPending at hs
    split_ifs at hs with hrst
    · exact absurd hs.symm hne
    · exact ⟨hrst, hs⟩
  have hne : (egressPending e p token).newState.isSession = true →
      (egressPending e p token).newState ≠ .tcp .close := fun hsession heq => by
    rw [heq] at hsession
    cases hsession
  refine ⟨egressTcpHandshake_ne_none, fun hrecv hcomplete => ?_, fun hsession => ?_,
    fun hsession => ?_, htoken, nofun⟩
  · obtain ⟨hrst, htransition⟩ := hstate _ hrecv nofun
    rcases transition_eq_synRecv htransition with hne | ⟨hold, hnot⟩
    · exact hne hcomplete
    rcases egressTcpHandshake_eq_complete hcomplete with hlocal | ⟨hproto, hcompletes, -⟩
    · exact h.recv hold hlocal
    refine hnot hproto (Bool.eq_false_of_not_eq_true fun hr => hrst ⟨hproto, hr⟩) ?_
    exact ⟨hcompletes.1, hcomplete, hcompletes.2.2⟩
  · obtain ⟨-, htransition⟩ := hstate _ rfl (hne hsession)
    rw [← htransition] at hsession
    refine (isSession_transition (.inl hsession)).imp_right fun hcompletes => ?_
    obtain ⟨hrecv, hcomplete, hdir, hack, hsyn⟩ := hcompletes
    refine ⟨hrecv, hdir, hack, hsyn, ?_⟩
    rcases egressTcpHandshake_eq_complete hcomplete with hlocal | ⟨-, -, hlocal⟩
    · exact absurd hlocal (h.recv hrecv)
    rw [hlocal]
    decide
  obtain ⟨hrst, htransition⟩ := hstate _ rfl (hne hsession)
  rw [← htransition] at hsession
  rcases isSession_transition (.inl hsession) with hold | ⟨-, hcomplete, -⟩
  · by_cases hlocal : e.tcpLocalHandshake = .complete
    · refine (egressTcpHandshake_of_complete hlocal).imp_right fun ⟨hproto, hsyn, hack, hqueued⟩ => ?_
      rw [hqueued, hproto] at hsession
      have hnot : p.l4.isRst = false := Bool.eq_false_of_not_eq_true fun hr => hrst ⟨hproto, hr⟩
      exact .inl (reopens_of_transition hsyn hack hnot hsession)
    · exact .inr (.inr ⟨hold, hlocal⟩)
  · exact .inl hcomplete

lemma pendingOk_provisional {p : Packet}
    (hinitial : initialState p.proto p.l4 = some initial) {token : ℕ} (htoken : token ≠ 0) :
    ∀ pending, (provisionalEntry p token initial).pendingEgress = some pending →
      PendingOk p.l4 true (provisionalEntry p token initial) pending := by
  rintro pending hpending
  cases hpending
  have hsession := isSession_of_initialState hinitial
  refine ⟨fun hne => .inr ?_, fun _ => ?_, fun hs => ?_, fun hs => ?_, htoken,
    fun _ => ⟨rfl, hsession⟩⟩
  · unfold initialState at hinitial
    by_cases hproto : p.proto = ipprotoTcp
    · rw [if_pos hproto] at hinitial
      split_ifs at hinitial with hsyn
      exact hsyn.1
    · exact absurd (if_neg hproto) hne
  · dsimp only
    split_ifs <;> decide
  · cases hsession.symm.trans hs
  · cases hsession.symm.trans hs

lemma entryOk_provisional {p : Packet}
    (hinitial : initialState p.proto p.l4 = some initial) (token : ℕ) :
    EntryOk log key (provisionalEntry p token initial) where
  born hnone := absurd hnone (some_ne_none _)
  syn hne := absurd rfl hne
  recv _ := nofun
  session hs := nomatch (isSession_of_initialState hinitial).symm.trans hs
  complete hs := nomatch (isSession_of_initialState hinitial).symm.trans hs
  generation hne := absurd rfl hne

/-- The end of a connection, written over a queued packet too. -/
lemma PendingOk.endConnection {created : Bool} {pending : PendingEgress}
    (h : PendingOk l4 created e pending) {state : CtProtoState} (hsession : state.isSession = false)
    (hrecv : state ≠ .tcp .synRecv) :
    PendingOk l4 created (endConnection state e) { pending with newState := state } where
  handshake := h.handshake
  recv heq := absurd heq hrecv
  session hs := nomatch hsession.symm.trans hs
  complete hs := nomatch hsession.symm.trans hs
  token := h.token
  fresh hcreated := ⟨(h.fresh hcreated).1, hsession⟩

/-- A finalised packet justifies the state it sets. -/
lemma EntryOk.finalize (h : EntryOk log key e) {created : Bool} {pending : PendingEgress}
    (hpending : PendingOk l4 created e pending)
    (hfresh : created = false → sinceCreation key log ≠ none) :
    EntryOk (.finalized key l4 e.state pending.stateDir ::
      ((if created then [.created key] else []) ++ log)) key
      (finalizeEntry pending e) := by
  generalize hlog : (if created then [Mark.created key] else []) ++ log = log'
  -- After a creation nothing of the past counts, and there is none.
  have hborn : sinceCreation key log' ≠ none := by
    rw [← hlog]
    cases created with
    | true =>
      rw [if_pos rfl, singleton_append, sinceCreation_created]
      exact some_ne_none _
    | false => exact hfresh rfl
  have hsyn : e.tcpLocalHandshake ≠ .none → HasSyn log' key := fun hne => by
    rw [← hlog]
    cases created with
    | true => exact absurd (hpending.fresh rfl).1 hne
    | false => exact h.syn hne
  have hearned : e.state.isSession = true → Earned log' key := fun hs => by
    rw [← hlog]
    cases created with
    | true => cases (hpending.fresh rfl).2.symm.trans hs
    | false => exact h.session hs
  have hstate : (finalizeEntry pending e).state = pending.newState := by
    unfold finalizeEntry
    simp
  have hhandshake : (finalizeEntry pending e).tcpLocalHandshake = pending.tcpHandshake := by
    unfold finalizeEntry
    simp
  have hgeneration : (finalizeEntry pending e).tcpGeneration =
      if e.tcpGeneration = 0 ∧ pending.tcpHandshake ≠ .none then pending.token
      else e.tcpGeneration := by
    unfold finalizeEntry
    simp
  refine ⟨fun _ => sinceCreation_ne_none_cons hborn _, fun hne => ?_, fun heq => ?_, fun hs => ?_,
    fun hs => ?_, fun hne => ?_⟩
  · rw [hhandshake] at hne
    rcases hpending.handshake hne with hlocal | hflag
    · exact (hsyn hlocal).cons nofun
    · exact .of_finalized hborn hflag
  · rw [hhandshake]
    exact hpending.recv (hstate ▸ heq)
  · rcases hpending.session (hstate ▸ hs) with hold | ⟨hrecv, hdir, hack, hnot, hlocal⟩
    · exact (hearned hold).cons nofun
    · refine (hsyn hlocal).earned_cons nofun (.inl ⟨l4, ?_, hack, hnot⟩)
      rw [hrecv, hdir]
      exact mem_singleton.mpr rfl
  · rw [hhandshake]
    refine (hpending.complete (hstate ▸ hs)).imp_right ?_
    rintro (hreopens | ⟨hold, hlocal⟩)
    · simp [Mark.reopens, hreopens]
    · simp [← hlog, (h.complete hold).resolve_left hlocal]
  · rw [hhandshake] at hne
    rw [hgeneration]
    split_ifs with hzero
    · exact hpending.token
    · exact fun heq => hzero ⟨heq, hne⟩

end Entries

end Nilix.Net.Ct
