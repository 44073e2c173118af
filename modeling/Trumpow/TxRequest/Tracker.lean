import Mathlib

/-!
# TxRequest — the transaction request tracker

`TxRequestTracker::Impl` of `txrequest.cpp`: the announcements of transactions by peers, in one
`boost::multi_index` container with three ordered views, and a cache of per-peer counts.

The container is a list of announcements.  An iterator is the announcement it points to: an
announcement is unique by (peer, txhash) in every state the tracker reaches, and `Modify` and
`Erase` find it by its value.  The three views are keys the operations compare:

* `ByPeerView` is (`m_state == CANDIDATE_BEST`, txhash), within one peer;
* `ByTxHashView` is (state, priority when `CANDIDATE_READY`), within one txhash; boost keeps equal
  views in an order of its own, the model orders them by peer;
* `ByTimeView` is (wait state, time); equal views are taken in the order of the list.

`std::next` and `std::prev` in `ByTxHash` are the nearest announcement of the same txhash above and
below (`nextByTxHash`, `prevByTxHash`); `ByTime.begin()` and `std::prev(ByTime.end())` are an
announcement of least and of greatest view.  The two loops of `SetTimePoint` carry fuel, the
number of announcements, which the invariants show to be enough.

The priority computer is a parameter: `siphash txhash peer` is
`CSipHasher(m_k0, m_k1).Write(txhash).Write(peer).Finalize()`.  The counts of `m_peerinfo` are a
function of the peer, zero where the map has no entry.  Times are of any linear order (the source's
are `int64_t` microseconds).
-/

namespace Trumpow.TxRequest

/-- The states of an announcement, in the order `ByTxHash` sorts by. -/
inductive State where
  | CANDIDATE_DELAYED
  | CANDIDATE_READY
  | CANDIDATE_BEST
  | REQUESTED
  | COMPLETED
  deriving DecidableEq, Repr

/-- The enum's value. -/
def State.toNat : State → Nat
  | .CANDIDATE_DELAYED => 0
  | .CANDIDATE_READY => 1
  | .CANDIDATE_BEST => 2
  | .REQUESTED => 3
  | .COMPLETED => 4

/-- One peer's announcement of one txhash. -/
structure Announcement (τ π ι : Type) where
  m_txhash : τ
  /-- The reqtime of a candidate, the expiry of a request. -/
  m_time : ι
  m_peer : π
  m_sequence : Nat
  m_preferred : Bool
  m_state : State
  deriving DecidableEq, Repr

namespace Announcement

variable {τ π ι : Type}

/-- At most one announcement of a txhash is selected. -/
def IsSelected (ann : Announcement τ π ι) : Bool :=
  ann.m_state == .CANDIDATE_BEST || ann.m_state == .REQUESTED

/-- Waiting for its time to pass. -/
def IsWaiting (ann : Announcement τ π ι) : Bool :=
  ann.m_state == .REQUESTED || ann.m_state == .CANDIDATE_DELAYED

/-- Could be selected if the selected one disappears. -/
def IsSelectable (ann : Announcement τ π ι) : Bool :=
  ann.m_state == .CANDIDATE_READY || ann.m_state == .CANDIDATE_BEST

/-- The modifier that sets the state. -/
def setState (s : State) (ann : Announcement τ π ι) : Announcement τ π ι := { ann with m_state := s }

end Announcement

inductive WaitState where
  | FUTURE_EVENT
  | NO_EVENT
  | PAST_EVENT
  deriving DecidableEq, Repr

def WaitState.toNat : WaitState → Nat
  | .FUTURE_EVENT => 0
  | .NO_EVENT => 1
  | .PAST_EVENT => 2

open Announcement

variable {τ π ι : Type} [LinearOrder τ] [LinearOrder π] [LinearOrder ι]

def GetWaitState (ann : Announcement τ π ι) : WaitState :=
  if ann.IsWaiting then .FUTURE_EVENT else if ann.IsSelectable then .PAST_EVENT else .NO_EVENT

/-- Per-peer statistics. -/
structure PeerInfo where
  m_total : Nat := 0
  m_completed : Nat := 0
  m_requested : Nat := 0
  deriving DecidableEq, Repr

/-- `TxRequestTracker::Impl`: the sequence number of the next announcement, the index and the
per-peer statistics. -/
structure Impl (τ π ι : Type) where
  m_current_sequence : Nat
  m_index : List (Announcement τ π ι)
  m_peerinfo : π → PeerInfo

/-- The tracker the constructor builds: no announcements. -/
def Impl.init : Impl τ π ι := ⟨0, [], fun _ => {}⟩

section Views

variable (siphash : τ → π → UInt64)

/-- `PriorityComputer::operator()`: the salted hash without its low bit, under the preferred flag
as the top bit. -/
def ComputePriority (txhash : τ) (peer : π) (preferred : Bool) : UInt64 :=
  siphash txhash peer >>> 1 ||| (if preferred then (1 : UInt64) else 0) <<< 63

/-- The priority of an announcement. -/
def Priority (ann : Announcement τ π ι) : UInt64 :=
  ComputePriority siphash ann.m_txhash ann.m_peer ann.m_preferred

/-- `ByTxHashViewExtractor` after the txhash: the state, and the priority of a `CANDIDATE_READY`
(zero otherwise); then the peer. -/
def ByTxHashView (ann : Announcement τ π ι) : Lex (Nat × Lex (Nat × π)) :=
  toLex (ann.m_state.toNat,
    toLex ((if ann.m_state = .CANDIDATE_READY then Priority siphash ann else 0).toNat, ann.m_peer))

/-- `ByTimeViewExtractor`. -/
def ByTimeView (ann : Announcement τ π ι) : Lex (Nat × ι) :=
  toLex ((GetWaitState ann).toNat, ann.m_time)

/-- `ByPeerViewExtractor` after the peer. -/
def ByPeerView (ann : Announcement τ π ι) : Lex (Bool × τ) :=
  toLex (ann.m_state == .CANDIDATE_BEST, ann.m_txhash)

/-- The announcements of `txhash`, one range of `ByTxHash`. -/
def ofTxHash (index : List (Announcement τ π ι)) (txhash : τ) : List (Announcement τ π ι) :=
  index.filter (·.m_txhash = txhash)

/-- `std::next(it)` in `ByTxHash`, when it has the txhash of `it`. -/
def nextByTxHash (index : List (Announcement τ π ι)) (it : Announcement τ π ι) :
    Option (Announcement τ π ι) :=
  ((ofTxHash index it.m_txhash).filter (ByTxHashView siphash it < ByTxHashView siphash ·)).argmin
    (ByTxHashView siphash)

/-- `std::prev(it)` in `ByTxHash`, when it has the txhash of `it`. -/
def prevByTxHash (index : List (Announcement τ π ι)) (it : Announcement τ π ι) :
    Option (Announcement τ π ι) :=
  ((ofTxHash index it.m_txhash).filter (ByTxHashView siphash · < ByTxHashView siphash it)).argmax
    (ByTxHashView siphash)

/-- `lower_bound(ByTxHashView{txhash, CANDIDATE_BEST, 0})`, when it has that txhash. -/
def lowerBoundBest (index : List (Announcement τ π ι)) (txhash : τ) : Option (Announcement τ π ι) :=
  ((ofTxHash index txhash).filter (2 ≤ ·.m_state.toNat)).argmin (ByTxHashView siphash)

end Views

/-- `ByTime.begin()`. -/
def firstByTime (index : List (Announcement τ π ι)) : Option (Announcement τ π ι) :=
  index.argmin ByTimeView

/-- `std::prev(ByTime.end())`. -/
def lastByTime (index : List (Announcement τ π ι)) : Option (Announcement τ π ι) :=
  index.argmax ByTimeView

/-- `find(ByPeerView{peer, best, txhash})`. -/
def findByPeer (index : List (Announcement τ π ι)) (peer : π) (best : Bool) (txhash : τ) :
    Option (Announcement τ π ι) :=
  index.find? fun ann =>
    ann.m_peer = peer && (ann.m_state == .CANDIDATE_BEST) == best && ann.m_txhash = txhash

namespace Impl

/-! ### The wrappers that keep `m_peerinfo` up to date -/

/-- `Modify(it, modifier)`: the announcement changes in place, and its peer's counts of `COMPLETED`
and `REQUESTED` follow it. -/
def Modify (t : Impl τ π ι) (it : Announcement τ π ι)
    (modifier : Announcement τ π ι → Announcement τ π ι) : Impl τ π ι :=
  let info := t.m_peerinfo it.m_peer
  let it' := modifier it
  { t with
    m_index := t.m_index.map fun ann => if ann = it then it' else ann
    m_peerinfo := Function.update t.m_peerinfo it.m_peer
      { info with
        m_completed := info.m_completed - (it.m_state == .COMPLETED).toNat +
          (it'.m_state == .COMPLETED).toNat
        m_requested := info.m_requested - (it.m_state == .REQUESTED).toNat +
          (it'.m_state == .REQUESTED).toNat } }

/-- `Erase(it)`: a peer whose count drops to zero loses its entry. -/
def Erase (t : Impl τ π ι) (it : Announcement τ π ι) : Impl τ π ι :=
  let info := t.m_peerinfo it.m_peer
  let info : PeerInfo :=
    { m_total := info.m_total - 1
      m_completed := info.m_completed - (it.m_state == .COMPLETED).toNat
      m_requested := info.m_requested - (it.m_state == .REQUESTED).toNat }
  { t with
    m_index := t.m_index.erase it
    m_peerinfo := Function.update t.m_peerinfo it.m_peer (if info.m_total = 0 then {} else info) }

/-- `Erase` of each of `anns` in turn. -/
def EraseAll (t : Impl τ π ι) : List (Announcement τ π ι) → Impl τ π ι
  | [] => t
  | it :: anns => (t.Erase it).EraseAll anns

variable (siphash : τ → π → UInt64)

/-- The announcements of `txhash` in `ByTxHash` order, as the erasing loops visit them. -/
def rangeByTxHash (t : Impl τ π ι) (txhash : τ) : List (Announcement τ π ι) :=
  (ofTxHash t.m_index txhash).mergeSort (ByTxHashView siphash · ≤ ByTxHashView siphash ·)

/-! ### Moving between states -/

/-- `PromoteCandidateReady(it)` of a `CANDIDATE_DELAYED`: it becomes `CANDIDATE_READY`, and
`CANDIDATE_BEST` when nothing selected follows it or the `CANDIDATE_BEST` that follows has a
lower priority. -/
def PromoteCandidateReady (t : Impl τ π ι) (it : Announcement τ π ι) : Impl τ π ι :=
  let t := t.Modify it (setState .CANDIDATE_READY)
  let it := setState .CANDIDATE_READY it
  match nextByTxHash siphash t.m_index it with
  | none => t.Modify it (setState .CANDIDATE_BEST)
  | some it_next =>
    if it_next.m_state = .COMPLETED then t.Modify it (setState .CANDIDATE_BEST)
    else if it_next.m_state = .CANDIDATE_BEST then
      if Priority siphash it_next < Priority siphash it then
        (t.Modify it_next (setState .CANDIDATE_READY)).Modify it (setState .CANDIDATE_BEST)
      else t
    else t

/-- `ChangeAndReselect(it, new_state)`: a selected announcement hands the selection to the
`CANDIDATE_READY` just below it, if there is one. -/
def ChangeAndReselect (t : Impl τ π ι) (it : Announcement τ π ι) (new_state : State) : Impl τ π ι :=
  let t :=
    if it.IsSelected then
      match prevByTxHash siphash t.m_index it with
      | some it_prev =>
        if it_prev.m_state = .CANDIDATE_READY then t.Modify it_prev (setState .CANDIDATE_BEST)
        else t
      | none => t
    else t
  t.Modify it (setState new_state)

/-- `IsOnlyNonCompleted(it)`: nothing of its txhash below it, and above it nothing or a
`COMPLETED`. -/
def IsOnlyNonCompleted (t : Impl τ π ι) (it : Announcement τ π ι) : Bool :=
  match prevByTxHash siphash t.m_index it with
  | some _ => false
  | none =>
    match nextByTxHash siphash t.m_index it with
    | some it_next => it_next.m_state == .COMPLETED
    | none => true

/-- `MakeCompleted(it)`, and whether the announcement still exists. -/
def MakeCompleted (t : Impl τ π ι) (it : Announcement τ π ι) : Impl τ π ι × Bool :=
  if it.m_state = .COMPLETED then (t, true)
  else if t.IsOnlyNonCompleted siphash it then
    -- the last non-`COMPLETED` of its txhash: the whole range goes
    (t.EraseAll (t.rangeByTxHash siphash it.m_txhash), false)
  else (t.ChangeAndReselect siphash it .COMPLETED, true)

/-- The first loop of `SetTimePoint`: from the front of `ByTime`, promote the `CANDIDATE_DELAYED`
and expire the `REQUESTED` whose time has come. -/
def SetTimePointForward (now : ι) :
    Nat → Impl τ π ι → List (π × τ) → Impl τ π ι × List (π × τ)
  | 0, t, expired => (t, expired)
  | fuel + 1, t, expired =>
    match firstByTime t.m_index with
    | none => (t, expired)
    | some it =>
      if it.m_state = .CANDIDATE_DELAYED ∧ it.m_time ≤ now then
        SetTimePointForward now fuel (t.PromoteCandidateReady siphash it) expired
      else if it.m_state = .REQUESTED ∧ it.m_time ≤ now then
        SetTimePointForward now fuel (t.MakeCompleted siphash it).1
          (expired ++ [(it.m_peer, it.m_txhash)])
      else (t, expired)

/-- The second loop of `SetTimePoint`: from the back of `ByTime`, demote the selectable
announcements whose time is still to come (the clock went backwards). -/
def SetTimePointBackward (now : ι) : Nat → Impl τ π ι → Impl τ π ι
  | 0, t => t
  | fuel + 1, t =>
    match lastByTime t.m_index with
    | none => t
    | some it =>
      if it.IsSelectable ∧ now < it.m_time then
        SetTimePointBackward now fuel (t.ChangeAndReselect siphash it .CANDIDATE_DELAYED)
      else t

/-- `SetTimePoint(now, expired)`: the tracker at `now`, and the requests that expired. -/
def SetTimePoint (t : Impl τ π ι) (now : ι) : Impl τ π ι × List (π × τ) :=
  let r := SetTimePointForward siphash now t.m_index.length t []
  (SetTimePointBackward siphash now r.1.m_index.length r.1, r.2)

/-! ### The public operations -/

/-- `ReceivedInv(peer, txhash, preferred, reqtime)`. -/
def ReceivedInv (t : Impl τ π ι) (peer : π) (txhash : τ) (preferred : Bool) (reqtime : ι) :
    Impl τ π ι :=
  if (findByPeer t.m_index peer true txhash).isSome then t
  -- the emplace fails on the unique view (peer, false, txhash) of `ByPeer`
  else if (findByPeer t.m_index peer false txhash).isSome then t
  else
    { m_current_sequence := t.m_current_sequence + 1
      m_index := t.m_index ++
        [⟨txhash, reqtime, peer, t.m_current_sequence, preferred, .CANDIDATE_DELAYED⟩]
      m_peerinfo := Function.update t.m_peerinfo peer
        { t.m_peerinfo peer with m_total := (t.m_peerinfo peer).m_total + 1 } }

/-- `DisconnectedPeer(peer)`: each announcement of the peer, in `ByPeer` order, is completed and
then erased if `MakeCompleted` left it. -/
def DisconnectedPeer (t : Impl τ π ι) (peer : π) : Impl τ π ι :=
  ((t.m_index.filter (·.m_peer = peer)).mergeSort (ByPeerView · ≤ ByPeerView ·)).foldl
    (fun t it =>
      let r := t.MakeCompleted siphash it
      if r.2 then r.1.Erase (setState .COMPLETED it) else r.1)
    t

/-- `ForgetTxHash(txhash)`. -/
def ForgetTxHash (t : Impl τ π ι) (txhash : τ) : Impl τ π ι :=
  t.EraseAll (t.rangeByTxHash siphash txhash)

/-- `GetRequestable(peer, now, expired)`: the txhashes of the peer's `CANDIDATE_BEST`
announcements at `now` by sequence number, the requests that expired, and the tracker. -/
def GetRequestable (t : Impl τ π ι) (peer : π) (now : ι) :
    List τ × List (π × τ) × Impl τ π ι :=
  let r := t.SetTimePoint siphash now
  let selected := r.1.m_index.filter fun ann =>
    ann.m_peer = peer ∧ ann.m_state = .CANDIDATE_BEST
  ((selected.mergeSort (·.m_sequence ≤ ·.m_sequence)).map (·.m_txhash), r.2, r.1)

/-- `RequestedTx(peer, txhash, expiry)`. -/
def RequestedTx (t : Impl τ π ι) (peer : π) (txhash : τ) (expiry : ι) : Impl τ π ι :=
  let requested (ann : Announcement τ π ι) : Announcement τ π ι :=
    { ann with m_state := .REQUESTED, m_time := expiry }
  match findByPeer t.m_index peer true txhash with
  | some it => t.Modify it requested
  | none =>
    match findByPeer t.m_index peer false txhash with
    | none => t
    | some it =>
      if it.m_state ≠ .CANDIDATE_DELAYED ∧ it.m_state ≠ .CANDIDATE_READY then t
      else
        -- the selected announcement of the txhash, if any, gives way
        let t :=
          match lowerBoundBest siphash t.m_index txhash with
          | some it_old =>
            if it_old.m_state = State.CANDIDATE_BEST then t.Modify it_old (setState .CANDIDATE_READY)
            else if it_old.m_state = State.REQUESTED then t.Modify it_old (setState .COMPLETED)
            else t
          | none => t
        t.Modify it requested

/-- `ReceivedResponse(peer, txhash)`. -/
def ReceivedResponse (t : Impl τ π ι) (peer : π) (txhash : τ) : Impl τ π ι :=
  match (findByPeer t.m_index peer false txhash).or (findByPeer t.m_index peer true txhash) with
  | some it => (t.MakeCompleted siphash it).1
  | none => t

/-- `CountInFlight(peer)`. -/
def CountInFlight (t : Impl τ π ι) (peer : π) : Nat := (t.m_peerinfo peer).m_requested

/-- `CountCandidates(peer)`. -/
def CountCandidates (t : Impl τ π ι) (peer : π) : Nat :=
  (t.m_peerinfo peer).m_total - (t.m_peerinfo peer).m_requested - (t.m_peerinfo peer).m_completed

/-- `Count(peer)`. -/
def Count (t : Impl τ π ι) (peer : π) : Nat := (t.m_peerinfo peer).m_total

/-- `Size()`. -/
def Size (t : Impl τ π ι) : Nat := t.m_index.length

end Impl

/-! ### The tracker as a system -/

section Steps

variable (siphash : τ → π → UInt64)

/-- One call of a public operation that changes the tracker. -/
inductive Step : Impl τ π ι → Impl τ π ι → Prop
  | ReceivedInv (t : Impl τ π ι) (peer : π) (txhash : τ) (preferred : Bool) (reqtime : ι) :
      Step t (t.ReceivedInv peer txhash preferred reqtime)
  | DisconnectedPeer (t : Impl τ π ι) (peer : π) : Step t (t.DisconnectedPeer siphash peer)
  | ForgetTxHash (t : Impl τ π ι) (txhash : τ) : Step t (t.ForgetTxHash siphash txhash)
  | GetRequestable (t : Impl τ π ι) (peer : π) (now : ι) :
      Step t (t.GetRequestable siphash peer now).2.2
  | RequestedTx (t : Impl τ π ι) (peer : π) (txhash : τ) (expiry : ι) :
      Step t (t.RequestedTx siphash peer txhash expiry)
  | ReceivedResponse (t : Impl τ π ι) (peer : π) (txhash : τ) :
      Step t (t.ReceivedResponse siphash peer txhash)

end Steps

/-! ### `SanityCheck` -/

/-- `RecomputePeerInfo(index)`, at one peer. -/
def RecomputePeerInfo (index : List (Announcement τ π ι)) (peer : π) : PeerInfo where
  m_total := index.countP (·.m_peer = peer)
  m_completed := index.countP fun ann => ann.m_peer = peer ∧ ann.m_state = .COMPLETED
  m_requested := index.countP fun ann => ann.m_peer = peer ∧ ann.m_state = .REQUESTED

/-- Per-txhash statistics. -/
structure TxHashInfo (π : Type) where
  m_candidate_delayed : Nat := 0
  m_candidate_ready : Nat := 0
  m_candidate_best : Nat := 0
  m_requested : Nat := 0
  m_priority_candidate_best : UInt64 := 0xFFFFFFFFFFFFFFFF
  m_priority_best_candidate_ready : UInt64 := 0
  m_peers : List π := []

section Sanity

variable (siphash : τ → π → UInt64)

/-- One announcement's part in `ComputeTxHashInfo`. -/
def TxHashInfo.add (info : TxHashInfo π) (ann : Announcement τ π ι) : TxHashInfo π where
  m_candidate_delayed := info.m_candidate_delayed + (ann.m_state == .CANDIDATE_DELAYED).toNat
  m_candidate_ready := info.m_candidate_ready + (ann.m_state == .CANDIDATE_READY).toNat
  m_candidate_best := info.m_candidate_best + (ann.m_state == .CANDIDATE_BEST).toNat
  m_requested := info.m_requested + (ann.m_state == .REQUESTED).toNat
  m_priority_candidate_best :=
    if ann.m_state = .CANDIDATE_BEST then Priority siphash ann else info.m_priority_candidate_best
  m_priority_best_candidate_ready :=
    if ann.m_state = .CANDIDATE_READY then max info.m_priority_best_candidate_ready (Priority siphash ann)
    else info.m_priority_best_candidate_ready
  m_peers := info.m_peers ++ [ann.m_peer]

/-- `ComputeTxHashInfo(index, computer)`, at one txhash. -/
def ComputeTxHashInfo (index : List (Announcement τ π ι)) (txhash : τ) : TxHashInfo π :=
  (ofTxHash index txhash).foldl (TxHashInfo.add siphash) {}

/-- The assertions `SanityCheck` makes of one txhash. -/
def TxHashInfo.Sane (info : TxHashInfo π) : Prop :=
  0 < info.m_candidate_delayed + info.m_candidate_ready + info.m_candidate_best + info.m_requested ∧
  info.m_candidate_best + info.m_requested ≤ 1 ∧
  (0 < info.m_candidate_ready → info.m_candidate_best + info.m_requested = 1) ∧
  (0 < info.m_candidate_ready → 0 < info.m_candidate_best →
    info.m_priority_best_candidate_ready ≤ info.m_priority_candidate_best) ∧
  info.m_peers.Nodup

/-- `SanityCheck()`: the per-peer statistics are those of the index, and every txhash of the
index passes its assertions. -/
def SanityCheck (t : Impl τ π ι) : Prop :=
  (∀ peer, t.m_peerinfo peer = RecomputePeerInfo t.m_index peer) ∧
  ∀ ann ∈ t.m_index, (ComputeTxHashInfo siphash t.m_index ann.m_txhash).Sane

end Sanity

/-- `PostGetRequestableSanityCheck(now)`. -/
def PostGetRequestableSanityCheck (t : Impl τ π ι) (now : ι) : Prop :=
  ∀ ann ∈ t.m_index,
    (ann.IsWaiting = true → now < ann.m_time) ∧
    (ann.IsWaiting = false → ann.IsSelectable = true → ann.m_time ≤ now)

end Trumpow.TxRequest
