import Trumpow.Net.Bloom
import Trumpow.Support.Transition

/-!
# Net — a peer's filter in `ProcessMessage`

`net_processing.cpp` for the messages that set a peer's Bloom filter — `filterload`,
`filteradd`, `filterclear` — with the checks `ProcessMessage` makes before them (`NODE_BLOOM`,
`version`, `verack`), the score `Misbehaving` keeps and the ban `SendRejectsAndCheckIfBanned`
carries out, and the node's two uses of the filter: the test a transaction passes before it is
announced (`SendMessages`) and a filtered block (`ProcessGetData`, `CMerkleBlock`).  A peer is
the part of its `CNode` and `CNodeState` these read and write.  `Step` is any of them on one
peer, in any order; what is `Reachable` from a new `CNode` is every state a peer can be in.

* `Step.filterMove`: what one step can do to the filter — keep it, insert a key, update it by
  transactions, or, with `NODE_BLOOM`, install a loaded filter within the limits or
  `CBloomFilter()`.
* `Inv`: every reachable peer has a sound filter, the one of a new `CNode` until the handshake,
  a version of `0` or one `version` accepted, and no ban left pending.
* Along a run with no `filterload` or `filterclear`, the filter only grows (`KeepRun`).
-/

namespace Trumpow

open Codec Transition

def NO_BLOOM_VERSION : Int := 70011
def MIN_PEER_PROTO_VERSION : Int := 70016
def DEFAULT_BANSCORE_THRESHOLD : Int := 100

/-- What the filter messages read besides the peer's state: whether this node offers
`NODE_BLOOM`, the `-banscore` threshold, whether the peer is whitelisted or was added with
`-addnode` (`SendRejectsAndCheckIfBanned` punishes neither), and the transaction id. -/
structure Settings where
  fBloom : Bool
  banscore : Int := DEFAULT_BANSCORE_THRESHOLD
  fWhitelisted : Bool := false
  fAddnode : Bool := false
  GetHash : CTransaction → Uint256

/-- The fields of a peer's `CNode`, with the score of its `CNodeState`, that the filter
messages read and write; the defaults are those of a new `CNode`. -/
structure CNode where
  nVersion : Int := 0
  fSuccessfullyConnected : Bool := false
  fRelayTxes : Bool := false
  pfilter : Option CBloomFilter := some {}
  nMisbehavior : Int := 0
  fShouldBan : Bool := false
  fDisconnect : Bool := false
deriving DecidableEq

/-- The messages modelled, as `ProcessMessage` reads them: `version` by the two fields used here,
`filterload` and `filteradd` by their payload. -/
inductive Message where
  | version (nVersion : Int) (fRelay : Bool)
  | verack
  | filterload (vRecv : List UInt8)
  | filteradd (vRecv : List UInt8)
  | filterclear
deriving DecidableEq

/-- `filterload` and `filterclear` replace the filter; a run without them keeps it. -/
def Message.keepsFilter : Message → Bool
  | .filterload _ | .filterclear => false
  | _ => true

namespace CNode

variable (S : Settings)

/-- `Misbehaving(pnode, howmuch)`: the score grows, and crossing `-banscore` marks the peer to be
banned. -/
def Misbehaving (node : CNode) (howmuch : Int) : CNode :=
  if howmuch = 0 then node
  else
    let nMisbehavior := node.nMisbehavior + howmuch
    if nMisbehavior ≥ S.banscore ∧ nMisbehavior - howmuch < S.banscore then
      { node with nMisbehavior, fShouldBan := true }
    else { node with nMisbehavior }

/-- `SendRejectsAndCheckIfBanned`: a peer marked to be banned is disconnected, unless it is
whitelisted or was added with `-addnode`. -/
def SendRejectsAndCheckIfBanned (node : CNode) : CNode :=
  if node.fShouldBan then
    if S.fWhitelisted || S.fAddnode then { node with fShouldBan := false }
    else { node with fShouldBan := false, fDisconnect := true }
  else node

/-- `version`, on the fields modelled: a second one scores 1, an obsolete one disconnects, and
otherwise the peer's version and `fRelay` are taken. -/
def version (node : CNode) (nVersion : Int) (fRelay : Bool) : CNode :=
  -- Each connection can only send one version message
  if node.nVersion ≠ 0 then node.Misbehaving S 1
  -- disconnect from peers older than this proto version
  else if nVersion < MIN_PEER_PROTO_VERSION then { node with fDisconnect := true }
  else
    let nVersion := if nVersion = 10300 then 300 else nVersion
    { node with fRelayTxes := fRelay, nVersion }

/-- `filterload`: a filter within the limits replaces the peer's, its flags computed from its
bytes; a larger one scores 100.  A payload that does not parse throws before anything changes. -/
def filterload (node : CNode) (vRecv : List UInt8) : CNode :=
  match readBloomFilter.run vRecv with
  | none => node
  | some (filter, _) =>
    if !filter.IsWithinSizeConstraints then
      -- There is no excuse for sending a too-large filter
      node.Misbehaving S 100
    else { node with pfilter := some filter.UpdateEmptyFull, fRelayTxes := true }

/-- `filteradd`: data of at most `MAX_SCRIPT_ELEMENT_SIZE` bytes goes into the peer's filter;
larger data, or a peer without a filter, scores 100. -/
def filteradd (node : CNode) (vRecv : List UInt8) : CNode :=
  match readBytes.run vRecv with
  | none => node
  | some (vData, _) =>
    -- Nodes must NEVER send a data item > 520 bytes (the max size for a script data object,
    -- and thus, the maximum size any matched object can have) in a filteradd message
    if vData.length > MAX_SCRIPT_ELEMENT_SIZE then node.Misbehaving S 100
    else
      match node.pfilter with
      | some f => { node with pfilter := some (f.insert vData) }
      | none => node.Misbehaving S 100

/-- `filterclear`: with `NODE_BLOOM` a new `CBloomFilter()`; relaying resumes either way. -/
def filterclear (node : CNode) : CNode :=
  { node with pfilter := if S.fBloom then some {} else node.pfilter, fRelayTxes := true }

/-- The check before all others: a node without `NODE_BLOOM` refuses `filterload` and
`filteradd`, scoring a peer whose version knows better and disconnecting any other. -/
def checkNodeBloom (node : CNode) (handle : CNode → CNode) : CNode :=
  if !S.fBloom then
    if node.nVersion ≥ NO_BLOOM_VERSION then node.Misbehaving S 100
    else { node with fDisconnect := true }
  else handle node

/-- The check before every message but `version`. -/
def checkVersion (node : CNode) (handle : CNode → CNode) : CNode :=
  -- Must have a version message before anything else
  if node.nVersion = 0 then node.Misbehaving S 1 else handle node

/-- The checks before every message but `version` and `verack`. -/
def checkVerack (node : CNode) (handle : CNode → CNode) : CNode :=
  node.checkVersion S fun node =>
    -- Must have a verack message before anything else
    if !node.fSuccessfullyConnected then node.Misbehaving S 1 else handle node

/-- `ProcessMessage` for the messages modelled, each behind the checks it passes first. -/
def ProcessMessage (node : CNode) : Message → CNode
  | .version nVersion fRelay => node.version S nVersion fRelay
  | .verack => node.checkVersion S fun node => { node with fSuccessfullyConnected := true }
  | .filterload vRecv => node.checkNodeBloom S fun node => node.checkVerack S (·.filterload S vRecv)
  | .filteradd vRecv => node.checkNodeBloom S fun node => node.checkVerack S (·.filteradd S vRecv)
  | .filterclear => node.checkVerack S (·.filterclear S)

/-- `ProcessMessages` for one message: nothing for a peer marked to disconnect, and otherwise
the message, then `SendRejectsAndCheckIfBanned`. -/
def ProcessMessages (node : CNode) (msg : Message) : CNode :=
  if node.fDisconnect then node
  else (node.ProcessMessage S msg).SendRejectsAndCheckIfBanned S

/-- The filter test of `SendMessages` that a transaction passes before it is announced, in the
reply to `mempool` and in the periodic announcements: with a filter, only a relevant
transaction, and the filter is updated. -/
def announceTx (node : CNode) (tx : CTransaction) : Bool × CNode :=
  match node.pfilter with
  | some f =>
    let r := f.IsRelevantAndUpdate S.GetHash tx
    (r.1, { node with pfilter := some r.2 })
  | none => (true, node)

/-- A filtered block in `ProcessGetData`: with a filter, the matches of
`CMerkleBlock(block, *pfilter)`, which updates the filter; without one, no `merkleblock`. -/
def sendMerkleBlock (node : CNode) (vtx : List CTransaction) : Option (List Bool) × CNode :=
  match node.pfilter with
  | some f =>
    let r := f.vMatch S.GetHash vtx
    (some r.1, { node with pfilter := some r.2 })
  | none => (none, node)

/-- One step of a peer: a message among those `allowed`, a transaction through the filter test,
or a filtered block.  The node's other checks decide which transactions and blocks reach the
filter; here any may, in any order. -/
inductive Step (allowed : Message → Bool) : CNode → CNode → Prop
  | message (node : CNode) (msg : Message) (h : allowed msg = true) :
      Step allowed node (node.ProcessMessages S msg)
  | announce (node : CNode) (tx : CTransaction) : Step allowed node (node.announceTx S tx).2
  | merkleBlock (node : CNode) (vtx : List CTransaction) :
      Step allowed node (node.sendMerkleBlock S vtx).2


/-! ### What one message does -/

/-- What `ProcessMessage` can do to a peer, with the checks each change passed: score it,
disconnect it, leave it, take its `version`, mark it connected, or change its filter. -/
inductive Effect (S : Settings) (node : CNode) : Message → CNode → Prop
  | misbehaving (msg : Message) (howmuch : Int) : Effect S node msg (node.Misbehaving S howmuch)
  | disconnect (msg : Message) : Effect S node msg { node with fDisconnect := true }
  | unchanged (msg : Message) : Effect S node msg node
  | version (nVersion : Int) (fRelay : Bool) (h0 : node.nVersion = 0)
      (hmin : MIN_PEER_PROTO_VERSION ≤ nVersion) :
      Effect S node (.version nVersion fRelay) { node with fRelayTxes := fRelay, nVersion }
  | verack (hv : node.nVersion ≠ 0) :
      Effect S node .verack { node with fSuccessfullyConnected := true }
  | filterload (vRecv : List UInt8) (filter : CBloomFilter) (hv : node.nVersion ≠ 0)
      (hc : node.fSuccessfullyConnected = true) (hb : S.fBloom = true)
      (hs : filter.IsWithinSizeConstraints = true) :
      Effect S node (.filterload vRecv)
        { node with pfilter := some filter.UpdateEmptyFull, fRelayTxes := true }
  | filteradd (vRecv : List UInt8) (f : CBloomFilter) (vData : List UInt8) (hv : node.nVersion ≠ 0)
      (hc : node.fSuccessfullyConnected = true) (hf : node.pfilter = some f) :
      Effect S node (.filteradd vRecv) { node with pfilter := some (f.insert vData) }
  | filterclear (hv : node.nVersion ≠ 0) (hc : node.fSuccessfullyConnected = true) :
      Effect S node .filterclear
        { node with pfilter := if S.fBloom then some {} else node.pfilter, fRelayTxes := true }

section Handlers

variable {S : Settings}

/-- `Misbehaving` adds to the score and marks the peer when the score crosses `-banscore`. -/
theorem Misbehaving_eq (node : CNode) (howmuch : Int) :
    node.Misbehaving S howmuch =
      { node with
        nMisbehavior := node.nMisbehavior + howmuch,
        fShouldBan := node.fShouldBan || decide (howmuch ≠ 0 ∧
          S.banscore ≤ node.nMisbehavior + howmuch ∧ node.nMisbehavior < S.banscore) } := by
  unfold Misbehaving
  by_cases h0 : howmuch = 0
  · subst h0
    simp
  · rw [if_neg h0]
    by_cases hc : node.nMisbehavior + howmuch ≥ S.banscore ∧
        node.nMisbehavior + howmuch - howmuch < S.banscore
    · rw [if_pos hc]
      simp only [Int.add_sub_cancel] at hc
      simp [h0, hc.1, hc.2]
    · rw [if_neg hc]
      simp only [Int.add_sub_cancel, not_and, not_lt] at hc
      by_cases hb : S.banscore ≤ node.nMisbehavior + howmuch
      · simp [hb, hc hb]
      · simp [hb]

@[simp] theorem pfilter_Misbehaving (node : CNode) (howmuch : Int) :
    (node.Misbehaving S howmuch).pfilter = node.pfilter := by
  rw [Misbehaving_eq]

@[simp] theorem nVersion_Misbehaving (node : CNode) (howmuch : Int) :
    (node.Misbehaving S howmuch).nVersion = node.nVersion := by
  rw [Misbehaving_eq]

@[simp] theorem fSuccessfullyConnected_Misbehaving (node : CNode) (howmuch : Int) :
    (node.Misbehaving S howmuch).fSuccessfullyConnected = node.fSuccessfullyConnected := by
  rw [Misbehaving_eq]

/-- After `SendRejectsAndCheckIfBanned` no ban is pending; only the ban flag and the disconnect
flag change. -/
theorem SendRejectsAndCheckIfBanned_eq (node : CNode) :
    node.SendRejectsAndCheckIfBanned S =
      { node with
        fShouldBan := false,
        fDisconnect := node.fDisconnect || (node.fShouldBan && !(S.fWhitelisted || S.fAddnode)) } := by
  unfold SendRejectsAndCheckIfBanned
  cases node with
  | mk nVersion fSuccessfullyConnected fRelayTxes pfilter nMisbehavior fShouldBan fDisconnect =>
    cases fShouldBan <;> cases S.fWhitelisted || S.fAddnode <;> simp

theorem checkNodeBloom_effect {node : CNode} {msg : Message} {handle : CNode → CNode}
    (h : S.fBloom = true → Effect S node msg (handle node)) :
    Effect S node msg (node.checkNodeBloom S handle) := by
  unfold checkNodeBloom
  cases hb : S.fBloom with
  | false =>
    rw [if_pos (by simp)]
    split_ifs
    · exact .misbehaving _ _
    · exact .disconnect _
  | true =>
    rw [if_neg (by simp)]
    exact h hb

theorem checkVersion_effect {node : CNode} {msg : Message} {handle : CNode → CNode}
    (h : node.nVersion ≠ 0 → Effect S node msg (handle node)) :
    Effect S node msg (node.checkVersion S handle) := by
  unfold checkVersion
  split_ifs with hv
  · exact .misbehaving _ _
  · exact h hv

theorem checkVerack_effect {node : CNode} {msg : Message} {handle : CNode → CNode}
    (h : node.nVersion ≠ 0 → node.fSuccessfullyConnected = true → Effect S node msg (handle node)) :
    Effect S node msg (node.checkVerack S handle) := by
  unfold checkVerack
  refine checkVersion_effect fun hv => ?_
  cases hc : node.fSuccessfullyConnected with
  | false =>
    rw [if_pos (by simp)]
    exact .misbehaving _ _
  | true =>
    rw [if_neg (by simp)]
    exact h hv hc

theorem filterload_effect {node : CNode} (vRecv : List UInt8) (hv : node.nVersion ≠ 0)
    (hc : node.fSuccessfullyConnected = true) (hb : S.fBloom = true) :
    Effect S node (.filterload vRecv) (node.filterload S vRecv) := by
  unfold filterload
  split
  · exact .unchanged _
  · rename_i filter _ _
    cases hs : filter.IsWithinSizeConstraints with
    | false =>
      rw [if_pos (by simp)]
      exact .misbehaving _ _
    | true =>
      rw [if_neg (by simp)]
      exact .filterload vRecv filter hv hc hb hs

theorem filteradd_effect {node : CNode} (vRecv : List UInt8) (hv : node.nVersion ≠ 0)
    (hc : node.fSuccessfullyConnected = true) :
    Effect S node (.filteradd vRecv) (node.filteradd S vRecv) := by
  unfold filteradd
  split
  · exact .unchanged _
  · split_ifs
    · exact .misbehaving _ _
    · split
      · exact .filteradd vRecv _ _ hv hc ‹_›
      · exact .misbehaving _ _

theorem effect_ProcessMessage (node : CNode) (msg : Message) :
    Effect S node msg (node.ProcessMessage S msg) := by
  cases msg with
  | version nVersion fRelay =>
    rw [ProcessMessage, version]
    split_ifs with h1 h2 h3
    · exact .misbehaving _ _
    · exact .disconnect _
    · -- an accepted version is at least `MIN_PEER_PROTO_VERSION`, so never `10300`
      unfold MIN_PEER_PROTO_VERSION at h2
      exfalso
      omega
    · exact .version nVersion fRelay (not_not.mp h1) (not_lt.mp h2)
  | verack =>
    rw [ProcessMessage]
    exact checkVersion_effect fun hv => .verack hv
  | filterload vRecv =>
    rw [ProcessMessage]
    exact checkNodeBloom_effect fun hb =>
      checkVerack_effect fun hv hc => filterload_effect vRecv hv hc hb
  | filteradd vRecv =>
    rw [ProcessMessage]
    exact checkNodeBloom_effect fun _ => checkVerack_effect fun hv hc => filteradd_effect vRecv hv hc
  | filterclear =>
    rw [ProcessMessage]
    exact checkVerack_effect fun hv hc => .filterclear hv hc

end Handlers


/-! ### What one step does to the filter -/

/-- What a step can do to a peer's filter: keep it, insert a key, update it by transactions, or,
for a peer past the handshake and a node with `NODE_BLOOM`, on a `filterload` or `filterclear`
that `allowed` admits, install a loaded filter within the limits or `CBloomFilter()`. -/
inductive FilterMove (S : Settings) (allowed : Message → Bool) (fConnected : Bool) :
    Option CBloomFilter → Option CBloomFilter → Prop
  | stay (p : Option CBloomFilter) : FilterMove S allowed fConnected p p
  | insert (f : CBloomFilter) (vKey : List UInt8) :
      FilterMove S allowed fConnected (some f) (some (f.insert vKey))
  | update (f : CBloomFilter) (vtx : List CTransaction) :
      FilterMove S allowed fConnected (some f) (some (f.vMatch S.GetHash vtx).2)
  | load (p : Option CBloomFilter) (vRecv : List UInt8) (filter : CBloomFilter)
      (hallowed : allowed (.filterload vRecv) = true) (hc : fConnected = true)
      (hb : S.fBloom = true) (hs : filter.IsWithinSizeConstraints = true) :
      FilterMove S allowed fConnected p (some filter.UpdateEmptyFull)
  | clear (p : Option CBloomFilter) (hallowed : allowed .filterclear = true)
      (hc : fConnected = true) (hb : S.fBloom = true) :
      FilterMove S allowed fConnected p (some {})

section Steps

variable {S : Settings} {allowed : Message → Bool}

theorem Effect.filterMove {node node' : CNode} {msg : Message} (he : Effect S node msg node')
    (hallowed : allowed msg = true) :
    FilterMove S allowed node.fSuccessfullyConnected node.pfilter node'.pfilter := by
  cases he with
  | misbehaving => rw [pfilter_Misbehaving]; exact .stay _
  | disconnect => exact .stay _
  | unchanged => exact .stay _
  | version => exact .stay _
  | verack => exact .stay _
  | filterload vRecv filter _ hc hb hs => exact .load _ vRecv filter hallowed hc hb hs
  | filteradd vRecv f vData _ _ hf => rw [hf]; exact .insert f vData
  | filterclear _ hc =>
    cases hb : S.fBloom with
    | false => exact .stay _
    | true => exact .clear _ hallowed hc hb

/-- The inversion of `Step` on the filter. -/
theorem Step.filterMove {node node' : CNode} (h : Step S allowed node node') :
    FilterMove S allowed node.fSuccessfullyConnected node.pfilter node'.pfilter := by
  cases h with
  | message msg hallowed =>
    unfold ProcessMessages
    split
    · exact .stay _
    · rw [SendRejectsAndCheckIfBanned_eq]
      exact (effect_ProcessMessage node msg).filterMove hallowed
  | announce tx =>
    unfold announceTx
    split
    · rename_i f hf
      rw [hf]
      exact .update f [tx]
    · exact .stay _
  | merkleBlock vtx =>
    unfold sendMerkleBlock
    split
    · rename_i f hf
      rw [hf]
      exact .update f vtx
    · exact .stay _

/-- A property of filters that inserting keeps, and that every filter a move may install has,
holds after the move. -/
theorem FilterMove.closed {P : CBloomFilter → Prop} (hP : ∀ f vKey, P f → P (f.insert vKey))
    {c : Bool} {p p' : Option CBloomFilter} (hm : FilterMove S allowed c p p')
    (hload : ∀ vRecv (filter : CBloomFilter), allowed (.filterload vRecv) = true → c = true →
      S.fBloom = true → filter.IsWithinSizeConstraints = true → P filter.UpdateEmptyFull)
    (hclear : allowed .filterclear = true → c = true → S.fBloom = true → P {})
    (h : ∃ f, p = some f ∧ P f) : ∃ f, p' = some f ∧ P f := by
  cases hm with
  | stay => exact h
  | insert f vKey =>
    obtain ⟨g, hg, hPg⟩ := h
    cases hg
    exact ⟨_, rfl, hP _ _ hPg⟩
  | update f vtx =>
    obtain ⟨g, hg, hPg⟩ := h
    cases hg
    exact ⟨_, rfl, CBloomFilter.vMatch_closed _ hP hPg vtx⟩
  | load _ vRecv filter hallowed hc hb hs => exact ⟨_, rfl, hload vRecv filter hallowed hc hb hs⟩
  | clear _ hallowed hc hb => exact ⟨_, rfl, hclear hallowed hc hb⟩

/-- `CBloomFilter()` is full: inserting and updating leave it as it is. -/
theorem default_closed : ∀ (f : CBloomFilter) (vKey : List UInt8), f = {} → f.insert vKey = {} := by
  rintro f vKey rfl
  exact CBloomFilter.insert_of_isFull rfl

/-- Without `filterload` and `filterclear` the filter keeps what inserting keeps. -/
theorem Step.keep_closed {P : CBloomFilter → Prop} (hP : ∀ f vKey, P f → P (f.insert vKey))
    {node node' : CNode} (h : Step S Message.keepsFilter node node')
    (hf : ∃ f, node.pfilter = some f ∧ P f) : ∃ f, node'.pfilter = some f ∧ P f :=
  h.filterMove.closed hP (fun _ _ hallowed => nomatch hallowed) (fun hallowed => nomatch hallowed) hf

end Steps


/-! ### What every peer keeps -/

/-- What every peer keeps: a filter, sound; the filter of a new `CNode` until the handshake, and
for ever on a node without `NODE_BLOOM`; and a version of `0`, or one `version` accepted, that is
not `0` once the peer is marked connected. -/
structure Inv (S : Settings) (node : CNode) : Prop where
  filter : ∃ f, node.pfilter = some f ∧ f.Sound
  handshake : node.fSuccessfullyConnected = false → node.pfilter = some {}
  bloom : S.fBloom = false → node.pfilter = some {}
  version : node.nVersion = 0 ∨ MIN_PEER_PROTO_VERSION ≤ node.nVersion
  connected : node.fSuccessfullyConnected = true → node.nVersion ≠ 0

section Inv

variable {S : Settings} {allowed : Message → Bool}

theorem inv_new : Inv S {} where
  filter := ⟨{}, rfl, CBloomFilter.sound_default⟩
  handshake _ := rfl
  bloom _ := rfl
  version := .inl rfl
  connected h := nomatch h

theorem Effect.nVersion_eq {node node' : CNode} {msg : Message} (he : Effect S node msg node') :
    node'.nVersion = node.nVersion ∨ (node.nVersion = 0 ∧ MIN_PEER_PROTO_VERSION ≤ node'.nVersion) := by
  cases he with
  | version nVersion fRelay h0 hmin => exact .inr ⟨h0, hmin⟩
  | misbehaving => exact .inl (nVersion_Misbehaving _ _)
  | _ => exact .inl rfl

theorem Effect.fSuccessfullyConnected_eq {node node' : CNode} {msg : Message}
    (he : Effect S node msg node') :
    node'.fSuccessfullyConnected = node.fSuccessfullyConnected ∨
      (node.nVersion ≠ 0 ∧ node'.nVersion = node.nVersion) := by
  cases he with
  | verack hv => exact .inr ⟨hv, rfl⟩
  | misbehaving => exact .inl (fSuccessfullyConnected_Misbehaving _ _)
  | _ => exact .inl rfl

/-- A step changes the version and the connected flag as a message's `Effect` does, or not at
all. -/
theorem Step.effect {node node' : CNode} (h : Step S allowed node node') :
    ∃ node₁, (node₁ = node ∨ ∃ msg, Effect S node msg node₁) ∧
      node'.nVersion = node₁.nVersion ∧ node'.fSuccessfullyConnected = node₁.fSuccessfullyConnected := by
  cases h with
  | message msg _ =>
    unfold ProcessMessages
    split
    · exact ⟨node, .inl rfl, rfl, rfl⟩
    · rw [SendRejectsAndCheckIfBanned_eq]
      exact ⟨_, .inr ⟨msg, effect_ProcessMessage node msg⟩, rfl, rfl⟩
  | announce tx =>
    refine ⟨node, .inl rfl, ?_, ?_⟩ <;> unfold announceTx <;> split <;> rfl
  | merkleBlock vtx =>
    refine ⟨node, .inl rfl, ?_, ?_⟩ <;> unfold sendMerkleBlock <;> split <;> rfl

/-- Nothing marks a peer as not connected. -/
theorem Step.fSuccessfullyConnected_mono {node node' : CNode} (h : Step S allowed node node')
    (hc : node.fSuccessfullyConnected = true) : node'.fSuccessfullyConnected = true := by
  obtain ⟨node₁, hnode₁, -, hc'⟩ := h.effect
  rw [hc']
  rcases hnode₁ with rfl | ⟨msg, he⟩
  · exact hc
  · rcases he.fSuccessfullyConnected_eq with h' | ⟨-, -⟩
    · rw [h', hc]
    · -- `verack` marks it connected again
      cases he <;> simp_all

theorem Inv.step {node node' : CNode} (hi : Inv S node) (h : Step S allowed node node') :
    Inv S node' where
  filter := h.filterMove.closed (fun _ vKey hs => hs.insert vKey)
    (fun _ _ _ _ _ hs => CBloomFilter.sound_UpdateEmptyFull hs)
    (fun _ _ _ => CBloomFilter.sound_default) hi.filter
  handshake hc' := by
    -- before the handshake no filter is loaded or cleared
    have hc : node.fSuccessfullyConnected = false := by
      cases hc0 : node.fSuccessfullyConnected
      · rfl
      · rw [h.fSuccessfullyConnected_mono hc0] at hc'
        cases hc'
    obtain ⟨f, hf, rfl⟩ := h.filterMove.closed default_closed
      (fun _ _ _ hc'' => by rw [hc] at hc''; cases hc'')
      (fun _ _ _ => rfl) ⟨{}, hi.handshake hc, rfl⟩
    exact hf
  bloom hb := by
    obtain ⟨f, hf, rfl⟩ := h.filterMove.closed default_closed
      (fun _ _ _ _ hb' => by rw [hb] at hb'; cases hb')
      (fun _ _ _ => rfl) ⟨{}, hi.bloom hb, rfl⟩
    exact hf
  version := by
    obtain ⟨node₁, hnode₁, hv, -⟩ := h.effect
    rw [hv]
    rcases hnode₁ with rfl | ⟨msg, he⟩
    · exact hi.version
    · rcases he.nVersion_eq with hv' | ⟨-, hmin⟩
      · rw [hv']
        exact hi.version
      · exact .inr hmin
  connected hc' := by
    obtain ⟨node₁, hnode₁, hv, hc⟩ := h.effect
    rw [hv]
    rw [hc] at hc'
    rcases hnode₁ with rfl | ⟨msg, he⟩
    · exact hi.connected hc'
    · rcases he.fSuccessfullyConnected_eq with hc₁ | ⟨hv₀, hv₁⟩
      · -- connected before: the version was accepted, and a second `version` changes nothing
        have hv₀ := hi.connected (hc₁ ▸ hc')
        rcases he.nVersion_eq with hv' | ⟨h0, -⟩
        · rw [hv']
          exact hv₀
        · exact absurd h0 hv₀
      · rw [hv₁]
        exact hv₀

/-- Every state a peer reaches from a new `CNode` keeps `Inv`. -/
theorem reachable_inv {node : CNode} (hr : Reachable (Step S allowed) {} node) : Inv S node :=
  hr.invariant inv_new (fun _ _ _ hi h => hi.step h)

end Inv


/-! ### The filter over a peer's runs -/

section Runs

variable {S : Settings} {allowed : Message → Bool}

/-- Every peer has a filter, within the limits, and one that is not full has bytes: `Hash`
reduces modulo `vData.size() * 8 > 0`, and every byte `insert` and `contains` touch,
`vData[nIndex >> 3]`, lies inside `vData`.  So `filteradd` never finds a peer without a filter. -/
theorem reachable_filter_inBounds {node : CNode} (hr : Reachable (Step S allowed) {} node) :
    ∃ f, node.pfilter = some f ∧ f.IsWithinSizeConstraints = true ∧
      (f.isFull = false → 0 < f.vData.length * 8 ∧
        ∀ vKey, ∀ nIndex ∈ f.hashIndices vKey, nIndex >>> 3 < f.vData.length) := by
  obtain ⟨f, hf, hs⟩ := (reachable_inv hr).filter
  refine ⟨f, hf, hs.size, fun hfull => ⟨?_, fun vKey nIndex hn => ?_⟩⟩
  · have hpos := List.length_pos_of_ne_nil (hs.nonempty hfull)
    omega
  · rw [ByteBits.shiftRight_three]
    exact CBloomFilter.div_eight_lt_of_mem_hashIndices (hs.nonempty hfull) hn

/-- A peer that sent `version`, `verack` and a `filterload` of a filter of one byte. -/
theorem reachable_filter_inBounds_loaded :
    let S : Settings := { fBloom := true, GetHash := fun _ => default }
    let node := ((({} : CNode).ProcessMessages S (.version 70016 true)).ProcessMessages S .verack
      ).ProcessMessages S (.filterload (serializeBloomFilter { vData := [0], nHashFuncs := 1 }))
    Reachable (Step S fun _ => true) {} node ∧
      ∃ f, node.pfilter = some f ∧ f.IsWithinSizeConstraints = true ∧
        (f.isFull = false → 0 < f.vData.length * 8 ∧
          ∀ vKey, ∀ nIndex ∈ f.hashIndices vKey, nIndex >>> 3 < f.vData.length) := by
  intro S node
  have hr : Reachable (Step S fun _ => true) {} node :=
    ((Reachable.refl.tail (.message _ _ rfl)).tail (.message _ _ rfl)).tail (.message _ _ rfl)
  exact ⟨hr, reachable_filter_inBounds hr⟩

theorem filteradd_writeBytes {node : CNode} {f : CBloomFilter} (hf : node.pfilter = some f)
    {vData : List UInt8} (hlen : vData.length ≤ MAX_SCRIPT_ELEMENT_SIZE) :
    node.filteradd S (writeBytes vData) = { node with pfilter := some (f.insert vData) } := by
  have hread : readBytes.run (writeBytes vData) = some (vData, []) := by
    have h := reads_readBytes (b := vData)
      (by unfold MAX_SIZE; unfold MAX_SCRIPT_ELEMENT_SIZE at hlen; omega) []
    simpa using h
  unfold filteradd
  rw [hread]
  dsimp only
  rw [if_neg (by omega), hf]

/-- After a `filteradd` of at most `MAX_SCRIPT_ELEMENT_SIZE` bytes the filter contains them:
inserted, or refused while the filter is still that of a new `CNode`, which contains everything. -/
theorem contains_ProcessMessage_filteradd {node : CNode} (hi : Inv S node) {vData : List UInt8}
    (hlen : vData.length ≤ MAX_SCRIPT_ELEMENT_SIZE) :
    ∃ f, (node.ProcessMessage S (.filteradd (writeBytes vData))).pfilter = some f ∧
      f.contains vData = true := by
  obtain ⟨f, hf, hs⟩ := hi.filter
  rw [ProcessMessage, checkNodeBloom]
  cases hb : S.fBloom with
  | false =>
    rw [if_pos (by simp)]
    split_ifs <;> exact ⟨{}, by simp [hi.bloom hb], rfl⟩
  | true =>
    rw [if_neg (by simp), checkVerack, checkVersion]
    by_cases hv : node.nVersion = 0
    · -- before `version` the peer is not connected
      have hc : node.fSuccessfullyConnected = false := by
        cases hc : node.fSuccessfullyConnected
        · rfl
        · exact absurd hv (hi.connected hc)
      rw [if_pos hv]
      exact ⟨{}, by simp [hi.handshake hc], rfl⟩
    · rw [if_neg hv]
      cases hc : node.fSuccessfullyConnected with
      | false =>
        rw [if_pos (by simp)]
        exact ⟨{}, by simp [hi.handshake hc], rfl⟩
      | true =>
        rw [if_neg (by simp), filteradd_writeBytes hf hlen]
        exact ⟨_, rfl, CBloomFilter.contains_insert_self hs.nonempty _⟩

/-- Along a run without `filterload` and `filterclear`, a key the filter contains stays
contained. -/
theorem contains_of_keepRun {node node' : CNode}
    (hrun : Reachable (Step S Message.keepsFilter) node node') {vKey : List UInt8}
    (h : ∃ f, node.pfilter = some f ∧ f.contains vKey = true) :
    ∃ f, node'.pfilter = some f ∧ f.contains vKey = true :=
  hrun.invariant (I := fun node => ∃ f, node.pfilter = some f ∧ f.contains vKey = true) h
    fun _ _ _ hc hs => hs.keep_closed (fun _ k hg => CBloomFilter.contains_insert_of_contains hg k) hc

theorem announceTx_of_pfilter {node : CNode} {f : CBloomFilter} (hf : node.pfilter = some f)
    (tx : CTransaction) :
    node.announceTx S tx = ((f.IsRelevantAndUpdate S.GetHash tx).1,
      { node with pfilter := some (f.IsRelevantAndUpdate S.GetHash tx).2 }) := by
  unfold announceTx
  rw [hf]


end Runs

/-! ### Scores and bans -/

section Ban

variable {S : Settings}

/-- A message that raised the score past `-banscore` marked the peer to be banned. -/
theorem Effect.fShouldBan_of_cross {node node' : CNode} {msg : Message} (he : Effect S node msg node')
    (hlt : node.nMisbehavior < S.banscore) (hge : S.banscore ≤ node'.nMisbehavior) :
    node'.fShouldBan = true := by
  cases he with
  | misbehaving _ howmuch =>
    rw [Misbehaving_eq] at hge ⊢
    have h0 : howmuch ≠ 0 := by
      rintro rfl
      simp only [Int.add_zero] at hge
      omega
    simp [h0, hge, hlt]
  | filterload => exact absurd hge (by simpa using hlt)
  | filteradd => exact absurd hge (by simpa using hlt)
  | filterclear => exact absurd hge (by simpa using hlt)
  | _ => exact absurd hge (not_le.mpr hlt)

/-- A message that takes a peer's score across `-banscore` disconnects it in the same
`ProcessMessages`, unless it is whitelisted or was added with `-addnode`. -/
theorem ProcessMessages_ban {node : CNode} {msg : Message} (hlt : node.nMisbehavior < S.banscore)
    (hge : S.banscore ≤ (node.ProcessMessages S msg).nMisbehavior)
    (hpunish : (S.fWhitelisted || S.fAddnode) = false) :
    (node.ProcessMessages S msg).fDisconnect = true := by
  unfold ProcessMessages at hge ⊢
  split at hge
  · exact absurd hge (not_le.mpr hlt)
  · rename_i hd
    rw [if_neg hd, SendRejectsAndCheckIfBanned_eq]
    rw [SendRejectsAndCheckIfBanned_eq] at hge
    have hban := (effect_ProcessMessage node msg).fShouldBan_of_cross hlt hge
    simp [hban, hpunish]

theorem ProcessMessages_ban_noBloom :
    let S : Settings := { fBloom := false, GetHash := fun _ => default }
    let node : CNode := { nVersion := 70016, fSuccessfullyConnected := true }
    node.nMisbehavior < S.banscore ∧
      S.banscore ≤ (node.ProcessMessages S (.filterload [])).nMisbehavior ∧
      (S.fWhitelisted || S.fAddnode) = false ∧
      (node.ProcessMessages S (.filterload [])).fDisconnect = true := by
  intro S node
  have hlt : node.nMisbehavior < S.banscore := by decide
  have hge : S.banscore ≤ (node.ProcessMessages S (.filterload [])).nMisbehavior := by decide
  exact ⟨hlt, hge, rfl, ProcessMessages_ban hlt hge rfl⟩

/-- A peer past the handshake that sends the serialization of a filter gets that filter, its
flags computed from its bytes whatever the sender's were, when it is within the limits; a larger
one leaves the peer's filter as it was and costs the peer 100. -/
theorem ProcessMessage_filterload (hb : S.fBloom = true) {node : CNode} (hv : node.nVersion ≠ 0)
    (hc : node.fSuccessfullyConnected = true) {f : CBloomFilter} (hlen : f.vData.length ≤ MAX_SIZE) :
    node.ProcessMessage S (.filterload (serializeBloomFilter f)) =
      if f.IsWithinSizeConstraints then
        { node with pfilter := some f.UpdateEmptyFull, fRelayTxes := true }
      else node.Misbehaving S 100 := by
  have hread : readBloomFilter.run (serializeBloomFilter f) =
      some ({ f with isFull := true, isEmpty := false }, []) := by
    simpa using reads_readBloomFilter hlen []
  rw [ProcessMessage, checkNodeBloom, if_neg (by simp [hb]), checkVerack, checkVersion, if_neg hv,
    if_neg (by simp [hc]), filterload, hread]
  dsimp only
  -- the filter read differs from `f` in the two flags, which neither the size check nor
  -- `UpdateEmptyFull` reads
  have hsize : ({ f with isFull := true, isEmpty := false } : CBloomFilter).IsWithinSizeConstraints =
      f.IsWithinSizeConstraints := rfl
  rw [hsize]
  cases f.IsWithinSizeConstraints <;> rfl

theorem ProcessMessage_filterload_oneByte :
    let S : Settings := { fBloom := true, GetHash := fun _ => default }
    let node : CNode := { nVersion := 70016, fSuccessfullyConnected := true }
    let f : CBloomFilter := { vData := [0], nHashFuncs := 1 }
    S.fBloom = true ∧ node.nVersion ≠ 0 ∧ node.fSuccessfullyConnected = true ∧
      f.vData.length ≤ MAX_SIZE ∧
      node.ProcessMessage S (.filterload (serializeBloomFilter f)) =
        if f.IsWithinSizeConstraints then
          { node with pfilter := some f.UpdateEmptyFull, fRelayTxes := true }
        else node.Misbehaving S 100 :=
  ⟨rfl, by decide, rfl, by decide, ProcessMessage_filterload rfl (by decide) rfl (by decide)⟩

end Ban

end CNode

end Trumpow
