import Nilix.Foundation.SelfDelimiting

/-!
# Audit events and their hash chain

`kernel/audit/lib.rs`: an event is hashed together with the hash of the event before it, by SHA-256 or,
when a key is set, by HMAC-SHA256.  What is hashed is the concatenation that `write_event_payload`
writes, with a domain separator in front.  SHA-256 itself is a parameter.
-/

namespace Nilix.Audit

def maxArgs : ℕ := 7

inductive AuditKind where
  | syscall | ipc | fs | process | signal | security | network | internal
deriving DecidableEq

/-- The discriminant that is hashed. -/
def AuditKind.asU8 : AuditKind → UInt8
  | syscall => 0
  | ipc => 1
  | fs => 2
  | process => 3
  | signal => 4
  | security => 5
  | network => 6
  | internal => 7

inductive AuditOutcome where
  | success | denied | error | info
deriving DecidableEq

/-- The discriminant that is hashed. -/
def AuditOutcome.asU8 : AuditOutcome → UInt8
  | success => 0
  | denied => 1
  | error => 2
  | info => 3

structure AuditSubject where
  pid : UInt32
  uid : UInt32
  gid : UInt32
  capId : Option UInt64
deriving DecidableEq

inductive AuditObject where
  | none
  | path (inode : UInt64) (mode : UInt32) (pathHash : UInt64)
  | endpoint (id : UInt64)
  | process (pid : UInt32) (signal : Option UInt32)
  | capability (capId : UInt64)
  | socket (proto : UInt8) (localAddr : UInt64) (localPort : UInt16) (remoteAddr : UInt64)
      (remotePort : UInt16)
  | memory (vaddr size : UInt64) (prot : UInt32)
  | namespaceObj (nsId : UInt64) (nsType : UInt32) (parentId : UInt64)
deriving DecidableEq

/-- A SHA-256 digest. -/
abbrev Digest := Vector UInt8 32

def zeroHash : Digest := Vector.replicate 32 0

structure AuditEvent where
  id : UInt64
  timestamp : UInt64
  kind : AuditKind
  outcome : AuditOutcome
  subject : AuditSubject
  object : AuditObject
  args : Vector UInt64 7
  argCount : UInt8
  errno : Int32
  dropped : UInt64
  prevHash : Digest
  hash : Digest
deriving DecidableEq

/-! ## What is hashed -/

def writeU8 (v : UInt8) : List UInt8 := [v]

def writeU16 (v : UInt16) : List UInt8 := leBytes 2 v.toNat

def writeU32 (v : UInt32) : List UInt8 := leBytes 4 v.toNat

def writeU64 (v : UInt64) : List UInt8 := leBytes 8 v.toNat

def writeI32 (v : Int32) : List UInt8 := writeU32 v.toUInt32

/-- `hash_object`: the bytes that it writes. -/
def hashObject : AuditObject → List UInt8
  | .none => writeU8 0
  | .path inode mode pathHash => writeU8 1 ++ (writeU64 inode ++ (writeU32 mode ++ writeU64 pathHash))
  | .endpoint id => writeU8 2 ++ writeU64 id
  | .process pid signal => writeU8 3 ++ (writeU32 pid ++ writeU32 (signal.getD 0))
  | .capability capId => writeU8 4 ++ writeU64 capId
  | .socket proto localAddr localPort remoteAddr remotePort =>
    writeU8 5 ++ (writeU8 proto ++ (writeU64 localAddr ++ (writeU16 localPort ++
      (writeU64 remoteAddr ++ writeU16 remotePort))))
  | .memory vaddr size prot => writeU8 6 ++ (writeU64 vaddr ++ (writeU64 size ++ writeU32 prot))
  | .namespaceObj nsId nsType parentId =>
    writeU8 7 ++ (writeU64 nsId ++ (writeU32 nsType ++ writeU64 parentId))

/-- The arguments that count. -/
def AuditEvent.usedArgs (event : AuditEvent) : List UInt64 :=
  event.args.toList.take (min event.argCount.toNat maxArgs)

/-- `write_event_payload`: the bytes that it writes. -/
def writeEventPayload (prevHash : Digest) (event : AuditEvent) : List UInt8 :=
  prevHash.toList ++ (writeU64 event.id ++ (writeU64 event.timestamp ++
    (writeU8 event.kind.asU8 ++ (writeU8 event.outcome.asU8 ++
    (writeU32 event.subject.pid ++ (writeU32 event.subject.uid ++ (writeU32 event.subject.gid ++
    (writeU64 (event.subject.capId.getD 0) ++ (writeU8 event.argCount ++
    (event.usedArgs.flatMap writeU64 ++ (writeI32 event.errno ++ (writeU64 event.dropped ++
    hashObject event.object))))))))))))

/-! ## Digests -/

/-- The bytes of an ASCII literal. -/
def asciiBytes (s : String) : List UInt8 := s.toList.map fun c => UInt8.ofNat c.toNat

def sha256BlockSize : ℕ := 64

section Sha

variable (sha : List UInt8 → Digest)

/-- The key of `hmac_sha256`, brought to the block size. -/
def hmacKeyBlock (key : List UInt8) : List UInt8 :=
  let normal := if sha256BlockSize < key.length then (sha key).toList else key
  normal ++ List.replicate (sha256BlockSize - normal.length) 0

def hmacSha256 (key message : List UInt8) : Digest :=
  let inner := sha ((hmacKeyBlock sha key).map (· ^^^ 0x36) ++ message)
  sha ((hmacKeyBlock sha key).map (· ^^^ 0x5c) ++ inner.toList)

variable (key : Option (List UInt8)) (prevHash : Digest) (event : AuditEvent) (events : List AuditEvent)

/-- The digest of a message, keyed if a key is given. -/
def digest (message : List UInt8) : Digest :=
  match key with
  | some key => hmacSha256 sha key message
  | none => sha message

/-- The message that `hash_event_prefixed` hashes. -/
def eventMessage : List UInt8 :=
  (match key with
  | some _ => asciiBytes "AUDIT-HMAC-SHA256-V1"
  | none => asciiBytes "AUDIT-SHA256-V1") ++ writeEventPayload prevHash event

def hashEventPrefixed (key : Option (List UInt8)) : Digest :=
  digest sha key (eventMessage key prevHash event)

def hashEvent : Digest :=
  hashEventPrefixed sha prevHash event none

/-! ## Verification -/

/-- `chain_link_valid`; the index is one of the slice. -/
def chainLinkValid (index : ℕ) (expectedHash : Digest) : Bool :=
  match events[index]? with
  | none => false
  | some event =>
    let hashOk := decide (event.hash = expectedHash)
    let linkOk :=
      match index with
      | 0 => true
      | previous + 1 => (events[previous]?).any fun before => decide (event.prevHash = before.hash)
    hashOk && linkOk

/-- The loop of `verify_chain` and `verify_chain_hmac`. -/
def verifyChainPrefixed : Bool :=
  events.zipIdx.all fun (event, i) =>
    chainLinkValid events i (hashEventPrefixed sha event.prevHash event key)

def verifyChain : Bool := verifyChainPrefixed sha none events

def verifyChainHmac (key : List UInt8) : Bool :=
  verifyChainPrefixed sha (some key) events

variable {sha}

/-- An event that carries its own hash. -/
def Sealed (sha : List UInt8 → Digest) (key : Option (List UInt8)) (event : AuditEvent) : Prop :=
  event.hash = hashEventPrefixed sha event.prevHash event key

variable {events : List AuditEvent}

lemma chainLinkValid_zero {event : AuditEvent} {expected : Digest} (h : events[0]? = some event) :
    chainLinkValid events 0 expected = true ↔ event.hash = expected := by
  unfold chainLinkValid
  rw [h]
  simp

lemma chainLinkValid_succ {i : ℕ} {before event : AuditEvent} {expected : Digest}
    (hbefore : events[i]? = some before) (h : events[i + 1]? = some event) :
    chainLinkValid events (i + 1) expected = true ↔
      event.hash = expected ∧ event.prevHash = before.hash := by
  unfold chainLinkValid
  rw [h]
  simp [hbefore]

/-- Verification asks that every event carries its hash and the hash of the one before. -/
lemma verifyChainPrefixed_iff {key : Option (List UInt8)} :
    verifyChainPrefixed sha key events = true ↔
      (∀ e ∈ events, Sealed sha key e) ∧ events.IsChain fun a b => b.prevHash = a.hash := by
  unfold verifyChainPrefixed
  rw [List.all_eq_true, List.isChain_iff_getElem]
  constructor
  · intro h
    have hat : ∀ (i : ℕ) (hi : i < events.length), chainLinkValid events i
        (hashEventPrefixed sha events[i].prevHash events[i] key) = true := fun i hi =>
      h (events[i], i) (List.mem_zipIdx_iff_getElem?.mpr (List.getElem?_eq_getElem hi))
    have hlink := fun i (hi : i + 1 < events.length) =>
      (chainLinkValid_succ (List.getElem?_eq_getElem (Nat.lt_of_succ_lt hi))
        (List.getElem?_eq_getElem hi)).mp (hat (i + 1) hi)
    refine ⟨fun e he => ?_, fun i hi => (hlink i hi).2⟩
    obtain ⟨i, hi, rfl⟩ := List.getElem_of_mem he
    cases i with
    | zero => exact (chainLinkValid_zero (List.getElem?_eq_getElem hi)).mp (hat 0 hi)
    | succ i => exact (hlink i hi).1
  · rintro ⟨hsealed, hchain⟩ ⟨event, i⟩ hmem
    have hevent : events[i]? = some event := List.mem_zipIdx_iff_getElem?.mp hmem
    obtain ⟨hi, rfl⟩ := List.getElem?_eq_some_iff.mp hevent
    cases i with
    | zero => exact (chainLinkValid_zero hevent).mpr (hsealed _ (List.getElem_mem hi))
    | succ i =>
      have hbefore := List.getElem?_eq_getElem (Nat.lt_of_succ_lt hi)
      exact (chainLinkValid_succ hbefore hevent).mpr ⟨hsealed _ (List.getElem_mem hi), hchain i hi⟩

end Sha

end Nilix.Audit
