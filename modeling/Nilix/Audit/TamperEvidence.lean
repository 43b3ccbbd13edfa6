import Mathlib.Data.Set.Function
import Nilix.Audit.Event

/-!
# Tamper evidence of the audit chain

The payload of an event determines every field but two: an absent `cap_id` is written as 0, and so is the
absent signal of a process object.  Up to these, two verified chains with the same last hash are the same
when no two different messages that they hash collide: the last events agree because their messages do,
and the hash of the event before is part of the message.
-/

namespace Nilix.Audit

open List

/-! ## Writers -/

lemma selfDelimiting_writeU8 : SelfDelimiting writeU8 :=
  .of_length (fun _ => rfl) fun _ _ h => (cons.inj h).1

lemma selfDelimiting_writeU16 : SelfDelimiting writeU16 :=
  selfDelimiting_leBytes (fun _ _ h => UInt16.toNat_inj.mp h) UInt16.toNat_lt

lemma selfDelimiting_writeU32 : SelfDelimiting writeU32 :=
  selfDelimiting_leBytes (fun _ _ h => UInt32.toNat_inj.mp h) UInt32.toNat_lt

lemma selfDelimiting_writeU64 : SelfDelimiting writeU64 :=
  selfDelimiting_leBytes (fun _ _ h => UInt64.toNat_inj.mp h) UInt64.toNat_lt

lemma selfDelimiting_writeI32 : SelfDelimiting writeI32 :=
  selfDelimiting_writeU32.comp fun a b h => by
    cases a
    cases b
    exact congrArg Int32.ofUInt32 h

lemma selfDelimiting_digest : SelfDelimiting fun d : Digest => d.toList :=
  .of_length (fun _ => Vector.length_toList) fun _ _ h => Vector.toList_inj.mp h

lemma AuditKind.asU8_injective : Function.Injective AuditKind.asU8 := by
  intro a b h
  cases a <;> cases b <;> first | rfl | cases h

lemma AuditOutcome.asU8_injective : Function.Injective AuditOutcome.asU8 := by
  intro a b h
  cases a <;> cases b <;> first | rfl | cases h

/-! ## What the payload tells -/

/-- An object as the hash sees it: an absent signal is signal 0. -/
def AuditObject.hashed : AuditObject → AuditObject
  | .process pid signal => .process pid (some (signal.getD 0))
  | o => o

/-- The byte that tells the variants apart. -/
def AuditObject.tag : AuditObject → UInt8
  | .none => 0
  | .path .. => 1
  | .endpoint .. => 2
  | .process .. => 3
  | .capability .. => 4
  | .socket .. => 5
  | .memory .. => 6
  | .namespaceObj .. => 7

/-- The fields after the tag. -/
def AuditObject.fields (o : AuditObject) : List UInt8 := (hashObject o).tail

lemma hashObject_eq (o : AuditObject) : hashObject o = writeU8 o.tag ++ o.fields := by
  cases o <;> rfl

/-- The fields determine an object of a known variant, up to an absent signal. -/
lemma hashed_eq_of_fields {a b : AuditObject} (htag : a.tag = b.tag) (h : a.fields = b.fields) :
    a.hashed = b.hashed := by
  -- the tags leave the pairs of one variant
  cases a <;> cases b <;> try (simp [AuditObject.tag] at htag; done)
  case none.none => rfl
  all_goals
    simp only [AuditObject.fields, hashObject, writeU8, singleton_append, tail_cons,
      cons.injEq, selfDelimiting_writeU16.append_iff, selfDelimiting_writeU32.append_iff,
      selfDelimiting_writeU64.append_iff, selfDelimiting_writeU16.injective.eq_iff,
      selfDelimiting_writeU32.injective.eq_iff, selfDelimiting_writeU64.injective.eq_iff] at h
    simp [AuditObject.hashed, h]

/-- The payload determines the object, up to an absent signal. -/
lemma hashed_eq_of_hashObject {a b : AuditObject} (h : hashObject a = hashObject b) :
    a.hashed = b.hashed := by
  rw [hashObject_eq, hashObject_eq] at h
  obtain ⟨htag, hfields⟩ := selfDelimiting_writeU8 _ _ _ _ h
  exact hashed_eq_of_fields htag hfields

/-- Two events agree on all that counts. -/
structure Agree (a b : AuditEvent) : Prop where
  id : a.id = b.id
  timestamp : a.timestamp = b.timestamp
  kind : a.kind = b.kind
  outcome : a.outcome = b.outcome
  subject : a.subject = b.subject
  argCount : a.argCount = b.argCount
  usedArgs : a.usedArgs = b.usedArgs
  errno : a.errno = b.errno
  dropped : a.dropped = b.dropped
  object : a.object = b.object
  prevHash : a.prevHash = b.prevHash
  hash : a.hash = b.hash

/-- An event as the hash sees it. -/
def AuditEvent.hashed (event : AuditEvent) : AuditEvent :=
  { event with
    subject := { event.subject with capId := some (event.subject.capId.getD 0) }
    object := event.object.hashed }

variable {a b : AuditEvent}

lemma length_usedArgs_eq (h : a.argCount = b.argCount) : a.usedArgs.length = b.usedArgs.length := by
  unfold AuditEvent.usedArgs
  rw [length_take, length_take, h, Vector.length_toList, Vector.length_toList]

/-- The payload determines an event with its hash, up to an absent `cap_id` and an absent signal. -/
lemma agree_hashed_of_payload (hhash : a.hash = b.hash)
    (h : writeEventPayload a.prevHash a = writeEventPayload b.prevHash b) :
    Agree a.hashed b.hashed := by
  obtain ⟨hprev, h⟩ := selfDelimiting_digest _ _ _ _ h
  simp only [selfDelimiting_writeU8.append_iff, selfDelimiting_writeU32.append_iff,
    selfDelimiting_writeU64.append_iff] at h
  obtain ⟨hid, htime, hkind, houtcome, hpid, huid, hgid, hcap, hcount, h⟩ := h
  -- The number of arguments comes before the arguments.
  obtain ⟨hargs, h⟩ := selfDelimiting_writeU64.flatMap (length_usedArgs_eq hcount) h
  rw [selfDelimiting_writeI32.append_iff, selfDelimiting_writeU64.append_iff] at h
  obtain ⟨herrno, hdropped, h⟩ := h
  have hsubject : a.hashed.subject = b.hashed.subject := by
    unfold AuditEvent.hashed
    dsimp only
    rw [hcap, hpid, huid, hgid]
  exact ⟨hid, htime, AuditKind.asU8_injective hkind, AuditOutcome.asU8_injective houtcome, hsubject,
    hcount, hargs, herrno, hdropped, hashed_eq_of_hashObject h, hprev, hhash⟩

/-! ## What the hash does not tell -/

/-- One is absent and the other is 0. -/
def Absent {α : Type} [OfNat α 0] (a b : Option α) : Prop :=
  a = none ∧ b = some 0 ∨ a = some 0 ∧ b = none

/-- The signals of two objects differ in a way that the hash does not see. -/
def AuditObject.Confused : AuditObject → AuditObject → Prop
  | .process _ signal, .process _ signal' => Absent signal signal'
  | _, _ => False

/-- Two events differ in a way that the hash does not see. -/
def Confused (a b : AuditEvent) : Prop :=
  Absent a.subject.capId b.subject.capId ∨ AuditObject.Confused a.object b.object

lemma eq_or_absent {α : Type} [OfNat α 0] {a b : Option α} (h : a.getD 0 = b.getD 0) :
    a = b ∨ Absent a b := by
  cases a with
  | none =>
    cases b with
    | none => exact .inl rfl
    | some => exact .inr (.inl ⟨rfl, congrArg some h.symm⟩)
  | some =>
    cases b with
    | none => exact .inr (.inr ⟨congrArg some h, rfl⟩)
    | some => exact .inl (congrArg some h)

lemma not_absent_self {α : Type} [OfNat α 0] (a : Option α) : ¬ Absent a a := by
  rintro (⟨rfl, h⟩ | ⟨rfl, h⟩) <;> cases h

lemma AuditObject.eq_or_confused {a b : AuditObject} (h : a.hashed = b.hashed) :
    a = b ∨ AuditObject.Confused a b := by
  cases a <;> cases b <;> try (exact .inl h)
  all_goals try cases h
  case process.process pid signal pid' signal' =>
    obtain ⟨rfl, hsignal⟩ := AuditObject.process.inj h
    rcases eq_or_absent (Option.some.inj hsignal) with rfl | habsent
    · exact .inl rfl
    · exact .inr habsent

lemma AuditObject.not_confused_self (o : AuditObject) : ¬ AuditObject.Confused o o := by
  cases o with
  | process pid signal => exact not_absent_self signal
  | _ => exact id

/-- Events that the hash sees alike agree, unless they are confused. -/
lemma agree_iff_not_confused (h : Agree a.hashed b.hashed) : Agree a b ↔ ¬ Confused a b := by
  constructor
  · rintro hagree (hcap | hobject)
    · rw [hagree.subject] at hcap
      exact not_absent_self _ hcap
    · rw [hagree.object] at hobject
      exact AuditObject.not_confused_self _ hobject
  intro hnot
  obtain ⟨hcap, hobject⟩ := not_or.mp hnot
  have hsubject : a.subject = b.subject := by
    obtain ⟨hpid, huid, hgid, hcapId⟩ := AuditSubject.mk.inj h.subject
    have hsame := (eq_or_absent (Option.some.inj hcapId)).resolve_right hcap
    cases ha : a.subject
    cases hb : b.subject
    rw [ha, hb] at hpid huid hgid hsame
    exact AuditSubject.mk.injEq .. ▸ ⟨hpid, huid, hgid, hsame⟩
  exact { h with
    subject := hsubject
    object := (AuditObject.eq_or_confused h.object).resolve_right hobject }

/-! ## Chains -/

/-- The messages whose digests a verification computes. -/
def hashedMessages (key : Option (List UInt8)) (events : List AuditEvent) : Set (List UInt8) :=
  {m | ∃ e ∈ events, m = eventMessage key e.prevHash e}

/-- `verify_chain`, or `verify_chain_hmac` with a key. -/
def verified (sha : List UInt8 → Digest) (key : Option (List UInt8)) (events : List AuditEvent) :
    Bool :=
  match key with
  | none => verifyChain sha events
  | some key => verifyChainHmac sha events key

lemma verified_eq (sha : List UInt8 → Digest) (key : Option (List UInt8))
    (events : List AuditEvent) : verified sha key events = verifyChainPrefixed sha key events := by
  cases key <;> rfl

section Chain

variable {sha : List UInt8 → Digest} {key : Option (List UInt8)}

/-- Two events with the same hash are seen alike, if their messages do not collide. -/
lemma agree_hashed_of_hash (ha : Sealed sha key a) (hb : Sealed sha key b) (hhash : a.hash = b.hash)
    (hinj : Set.InjOn (digest sha key) (hashedMessages key [a, b])) : Agree a.hashed b.hashed := by
  have hmessage : eventMessage key a.prevHash a = eventMessage key b.prevHash b := by
    apply hinj
    · exact ⟨a, mem_cons_self, rfl⟩
    · exact ⟨b, mem_cons_of_mem _ mem_cons_self, rfl⟩
    · exact ha.symm.trans (hhash.trans hb)
  exact agree_hashed_of_payload hhash (append_cancel_left hmessage)

/-- What the last event of a chain says of the hash before it. -/
lemma hash_getLast_of_chain {l : List AuditEvent} {a : AuditEvent}
    (h : (l ++ [a]).IsChain fun a b => b.prevHash = a.hash) :
    l.getLast?.map AuditEvent.hash = if l.length = 0 then none else some a.prevHash := by
  cases hl : l.getLast? with
  | none =>
    rw [getLast?_eq_none_iff.mp hl]
    rfl
  | some x =>
    rw [(isChain_append.mp h).2.2 x hl a rfl, if_neg]
    · rfl
    · intro hnil
      rw [length_eq_zero_iff.mp hnil] at hl
      cases hl

/-- Two verified chains with the same last hash are seen alike, event by event. -/
lemma forall₂_agree_hashed {e e' : List AuditEvent} (hlen : e.length = e'.length)
    (hsealed : ∀ a ∈ e, Sealed sha key a) (hsealed' : ∀ a ∈ e', Sealed sha key a)
    (hchain : e.IsChain fun a b => b.prevHash = a.hash)
    (hchain' : e'.IsChain fun a b => b.prevHash = a.hash)
    (hlast : e.getLast?.map AuditEvent.hash = e'.getLast?.map AuditEvent.hash)
    (hinj : Set.InjOn (digest sha key) (hashedMessages key (e ++ e'))) :
    List.Forall₂ (fun a b => Agree a.hashed b.hashed) e e' := by
  -- from the tail: the messages of the last events are the same, and so are the hashes before them
  induction e using reverseRecOn generalizing e' with
  | nil =>
    rw [length_eq_zero_iff.mp hlen.symm]
    exact .nil
  | append_singleton l a ih =>
    cases e' using reverseRecOn with
    | nil => simp at hlen
    | append_singleton l' b =>
      rw [getLast?_concat, getLast?_concat] at hlast
      have hmem : a ∈ l ++ [a] := mem_append_right _ mem_cons_self
      have hmem' : b ∈ l' ++ [b] := mem_append_right _ mem_cons_self
      have hagree : Agree a.hashed b.hashed := by
        refine agree_hashed_of_hash (hsealed a hmem) (hsealed' b hmem') (Option.some.inj hlast)
          (hinj.mono ?_)
        rintro m ⟨x, hx, rfl⟩
        refine ⟨x, ?_, rfl⟩
        rcases mem_cons.mp hx with rfl | hx
        · exact mem_append_left _ hmem
        rw [mem_singleton.mp hx]
        exact mem_append_right _ hmem'
      have hlen' : l.length = l'.length := by simpa using hlen
      have hbefore : l.getLast?.map AuditEvent.hash = l'.getLast?.map AuditEvent.hash := by
        have hprev : a.prevHash = b.prevHash := hagree.prevHash
        rw [hash_getLast_of_chain hchain, hash_getLast_of_chain hchain', hlen', hprev]
      refine rel_append (ih hlen' (fun x hx => hsealed x (mem_append_left _ hx))
        (fun x hx => hsealed' x (mem_append_left _ hx)) (isChain_append.mp hchain).1
        (isChain_append.mp hchain').1 hbefore (hinj.mono ?_)) (.cons hagree .nil)
      rintro m ⟨x, hx, rfl⟩
      refine ⟨x, ?_, rfl⟩
      rcases mem_append.mp hx with hx | hx
      · exact mem_append_left _ (mem_append_left _ hx)
      · exact mem_append_right _ (mem_append_left _ hx)

end Chain

/-! ## Tamper evidence -/

/-- Two relations that are equivalent where a third holds. -/
lemma forall₂_iff_of_forall₂ {α : Type*} {Q R S : α → α → Prop} {l l' : List α}
    (h : List.Forall₂ Q l l') (hiff : ∀ a b, Q a b → (R a b ↔ S a b)) :
    List.Forall₂ R l l' ↔ List.Forall₂ S l l' := by
  induction h with
  | nil => exact ⟨fun _ => .nil, fun _ => .nil⟩
  | cons hq _ ih => rw [forall₂_cons, forall₂_cons, hiff _ _ hq, ih]

/-- Two logs of one length that verify, end with the same hash and hash no two colliding messages agree
event by event exactly when at no position one of them has an absent `cap_id` or signal where the other
has 0. -/
theorem verified_agree_iff_not_confused {sha : List UInt8 → Digest} {key : Option (List UInt8)}
    {e e' : List AuditEvent} (hlen : e.length = e'.length) (hverified : verified sha key e = true)
    (hverified' : verified sha key e' = true)
    (hlast : e.getLast?.map AuditEvent.hash = e'.getLast?.map AuditEvent.hash)
    (hinj : Set.InjOn (digest sha key) (hashedMessages key (e ++ e'))) :
    List.Forall₂ Agree e e' ↔ List.Forall₂ (fun a b => ¬ Confused a b) e e' := by
  rw [verified_eq, verifyChainPrefixed_iff] at hverified hverified'
  have hagree := forall₂_agree_hashed hlen hverified.1 hverified'.1 hverified.2 hverified'.2 hlast hinj
  exact forall₂_iff_of_forall₂ hagree fun _ _ => agree_iff_not_confused

/-- A denied signal from one process to another. -/
def deniedSignal (id : UInt64) (capId : Option UInt64) (prevHash hash : Digest) : AuditEvent where
  id := id
  timestamp := 100
  kind := .security
  outcome := .denied
  subject := ⟨7, 1000, 1000, capId⟩
  object := .process 9 (some 15)
  args := Vector.replicate 7 0
  argCount := 2
  errno := -13
  dropped := 0
  prevHash := prevHash
  hash := hash

/-- A digest that tells messages apart by the low byte of the event ID. -/
def idByte (message : List UInt8) : Digest := Vector.replicate 32 (message.getD 47 0)

/-- Two events that verify under this digest. -/
def twoSignals (capId : Option UInt64) : List AuditEvent :=
  [deniedSignal 0 (some 5) zeroHash (Vector.replicate 32 0),
    deniedSignal 1 capId (Vector.replicate 32 0) (Vector.replicate 32 1)]

/-- Two different logs that end with the same hash. -/
theorem twoSignals_agree_iff_not_confused :
    List.Forall₂ Agree (twoSignals none) (twoSignals (some 0)) ↔
      List.Forall₂ (fun a b => ¬ Confused a b) (twoSignals none) (twoSignals (some 0)) := by
  have hnone : verified idByte none (twoSignals none) = true := by decide +kernel
  have hzero : verified idByte none (twoSignals (some 0)) = true := by decide +kernel
  refine verified_agree_iff_not_confused rfl hnone hzero rfl ?_
  have hdigest : ∀ a ∈ twoSignals none ++ twoSignals (some 0),
      ∀ b ∈ twoSignals none ++ twoSignals (some 0),
      idByte (eventMessage none a.prevHash a) = idByte (eventMessage none b.prevHash b) →
        eventMessage none a.prevHash a = eventMessage none b.prevHash b := by decide +kernel
  rintro m ⟨a, ha, rfl⟩ m' ⟨b, hb, rfl⟩ h
  exact hdigest a ha b hb h

/-- An event without a capability and the same event with capability 0: whatever the digest and the key,
both are hashed as the same message, so that one hash makes both of them verify. -/
theorem absent_capId_verifies_as_zero :
    ∃ a b : Digest → AuditEvent, (∀ hash, ¬ Agree (a hash) (b hash)) ∧
      ∀ (sha : List UInt8 → Digest) (key : Option (List UInt8)), ∃ hash : Digest,
        verified sha key [a hash] = true ∧ verified sha key [b hash] = true ∧
        hashedMessages key [a hash] = hashedMessages key [b hash] := by
  refine ⟨deniedSignal 0 none zeroHash, deniedSignal 0 (some 0) zeroHash, fun hash hagree => ?_,
    fun sha key => ?_⟩
  · cases congrArg AuditSubject.capId hagree.subject
  refine ⟨hashEventPrefixed sha zeroHash (deniedSignal 0 none zeroHash zeroHash) key, ?_, ?_, ?_⟩
  · rw [verified_eq, verifyChainPrefixed_iff]
    exact ⟨fun e he => mem_singleton.mp he ▸ rfl, .singleton _⟩
  · rw [verified_eq, verifyChainPrefixed_iff]
    exact ⟨fun e he => mem_singleton.mp he ▸ rfl, .singleton _⟩
  · unfold hashedMessages
    simp only [mem_singleton, exists_eq_left]
    rfl

end Nilix.Audit
