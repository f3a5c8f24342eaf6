import QuantaStream.Lib.IndexEdits
import QuantaStream.Lib.Outcome
import QuantaStream.Lib.Run

/-!
# Cluster membership

A connection object holds one network connection and one admin stub per node, and every service
registered with it holds one client per node.  The node map gives each node its index into all of
these lists.  When the list of healthy nodes changes, the node map is rebuilt from the new list;
joining nodes are inserted into the lists at their new indices, and then the nodes that left are
removed at their old indices, in the order in which the old node map happens to be visited.

A connection, stub or client is given by the node it was dialled to; a dial that fails leaves no
connection in the list.
-/

namespace QuantaStream.Shared

open IndexEdits List Option

variable {Node : Type} [DecidableEq Node]

/-! ## Connections -/

/-- The part of `Conn` that membership updates touch.  The node map is given by the nodes in the
order of their index. -/
structure Conn (Node : Type) where
  nodeMap : List Node
  nodup : nodeMap.Nodup
  clientConn : List (Option Node)
  admin : List (Option Node)
  services : List (List (Option Node))

open Conn

def Conn.index (c : Conn Node) (id : Node) : Option ℕ :=
  if id ∈ c.nodeMap then some (c.nodeMap.idxOf id) else none

/-- A slice with a new element at an index; an index behind the end panics. -/
def insertAt {α : Type} (l : List α) (index : ℕ) (a : α) : Option (List α) :=
  if index ≤ l.length then some (l.insertIdx index a) else none

/-- A slice without the element at an index; an index behind the end panics. -/
def removeAt {α : Type} (l : List α) (index : ℕ) : Option (List α) :=
  if index < l.length then some (l.eraseIdx index) else none

/-- The lists of the connection without the entry at an index; the last entry goes by making a new
list. -/
def removeMember {α : Type} (l : List α) (index : ℕ) : Option (List α) :=
  if 1 < l.length then removeAt l index else some []

/-- `MemberJoined` of a service: its client uses the connection at the index. -/
def memberJoined (clientConn : List (Option Node)) (index : ℕ) (client : List (Option Node)) :
    Option (List (Option Node)) :=
  clientConn[index]?.bind (insertAt client index)

/-- `MemberLeft` of a service. -/
def memberLeft (index : ℕ) (client : List (Option Node)) : Option (List (Option Node)) :=
  if client.length ≤ 1 then some [] else removeAt client index

/-- `SendMemberJoined` and `SendMemberLeft`: every registered service is told. -/
def sendAll (notify : List (Option Node) → Option (List (Option Node)))
    (services : List (List (Option Node))) : Option (List (List (Option Node))) :=
  services.mapM notify

/-- `Connect`, and services constructed on the connection. -/
def connect (ids : { ids : List Node // ids.Nodup }) (services : ℕ) : Conn Node where
  nodeMap := ids.1
  nodup := ids.2
  clientConn := ids.1.map some
  admin := ids.1.map some
  services := replicate services (ids.1.map some)

/-- A service constructed on the connection, as `NewBitmapIndex` does. -/
def Conn.registerService (c : Conn Node) : Conn Node :=
  { c with services := c.clientConn :: c.services }

/-! ## Membership updates -/

/-- What one update reads: the healthy nodes in the order of the catalogue, the order in which the
old node map is visited, and which nodes can be dialled. -/
structure Update (Node : Type) where
  ids : List Node
  nodup : ids.Nodup
  order : List Node → List Node
  perm : ∀ nodeMap, (order nodeMap).Perm nodeMap
  dial : Node → Bool

/-- The loop of `updateHealth` over joining members.  It returns whether every dial succeeded; it
stops at the first one that fails. -/
def joinMembers (dial : Node → Bool) (old : List Node) :
    ℕ → List Node → Conn Node → Option (Conn Node × Bool)
  | _, [], c => some (c, true)
  | index, id :: ids, c =>
    if id ∈ old then joinMembers dial old (index + 1) ids c
    else
      (insertAt c.clientConn index (if dial id then some id else none)).bind fun clientConn =>
        if dial id then
          (insertAt c.admin index (some id)).bind fun admin =>
            (sendAll (memberJoined clientConn index) c.services).bind fun services =>
              joinMembers dial old (index + 1) ids { c with clientConn, admin, services }
        else some ({ c with clientConn }, false)

/-- The loop of `updateHealth` over members that left.  A connection that was never dialled cannot
be closed. -/
def leaveMembers (old new : List Node) : List Node → Conn Node → Option (Conn Node)
  | [], c => some c
  | id :: ids, c =>
    if id ∈ new then leaveMembers old new ids c
    else if c.clientConn.length ≤ old.idxOf id then leaveMembers old new ids c
    else
      (c.clientConn[old.idxOf id]?).join.bind fun _ =>
        (removeMember c.clientConn (old.idxOf id)).bind fun clientConn =>
          (removeMember c.admin (old.idxOf id)).bind fun admin =>
            (sendAll (memberLeft (old.idxOf id)) c.services).bind fun services =>
              leaveMembers old new ids { c with clientConn, admin, services }

/-- `updateHealth` after the first scan; `none` is a panic. -/
def updateHealth (c : Conn Node) (u : Update Node) : Option (Conn Node) :=
  (joinMembers u.dial c.nodeMap 0 u.ids { c with nodeMap := u.ids, nodup := u.nodup }).bind
    fun joined =>
      if joined.2 then leaveMembers c.nodeMap u.ids (u.order c.nodeMap) joined.1
      else some joined.1

/-! ## Selecting nodes -/

/-- `OpType` of a node selection. -/
inductive NodeOp where
  | noQuorum
  | admin
  | allActive
  | readIntent
  | readIntentAll
  | writeIntent
  | writeIntentAll
  deriving DecidableEq, Repr

/-- The operations that go to all nodes. -/
def NodeOp.all (op : NodeOp) : Bool :=
  op = .allActive || op = .admin || op = .writeIntentAll || op = .readIntentAll

/-- `NodeState` of a status message. -/
inductive NodeState where
  | active
  | syncing
  | other
  deriving DecidableEq, Repr

inductive ClusterState where
  | red
  | orange
  | green
  deriving DecidableEq, Repr

/-- The errors of `selectNodesLocked`. -/
inductive SelectError (Node : Type) where
  | notGreen
  | unknownStatus (id : Node)
  | noneSelected
  deriving DecidableEq, Repr

/-- What a selection reads besides the node map: the state of the cluster, the statuses of the
nodes, the number of replicas, and the nodes that the hash table ranks first for the key. -/
structure Selection (Node : Type) where
  clusterState : ClusterState
  nodeStatus : Node → Option NodeState
  replicas : ℕ
  getN : ℕ → List Node

def selectLoop (c : Conn Node) (status : Node → Option NodeState) (op : NodeOp) :
    List Node → Except (SelectError Node) (List ℕ)
  | [] => .ok []
  | id :: ids =>
    match status id with
    | none => .error (.unknownStatus id)
    | some state =>
      if state ≠ .active ∧ state ≠ .syncing ∧ op.all = false then selectLoop c status op ids
      else if state ≠ .active ∧ (op = .readIntent ∨ op = .readIntentAll) then
        selectLoop c status op ids
      else
        match c.index id with
        | none => selectLoop c status op ids
        | some index =>
          if op = .readIntent then .ok [index]
          else (selectLoop c status op ids).map (index :: ·)

/-- The nodes the hash table ranks first for the key. -/
def Selection.nodeKeys (sel : Selection Node) (c : Conn Node) (op : NodeOp) : List Node :=
  sel.getN (if op.all ∧ 0 < c.nodeMap.length then c.nodeMap.length else sel.replicas)

def selectNodesLocked (c : Conn Node) (sel : Selection Node) (op : NodeOp) :
    Except (SelectError Node) (List ℕ) :=
  if sel.clusterState ≠ .green ∧ op = .allActive then .error .notGreen
  else
    match selectLoop c sel.nodeStatus op (sel.nodeKeys c op) with
    | .error e => .error e
    | .ok [] => .error .noneSelected
    | .ok indices => .ok indices

/-! ## Alignment -/

/-- A list has exactly one entry per node, at the index the node map gives the node, and no entry
of a node that left. -/
structure Belongs (nodeMap : List Node) (l : List (Option Node)) : Prop where
  length : l.length = nodeMap.length
  indexed : ∀ id ∈ nodeMap, l[nodeMap.idxOf id]? = some (some id)
  departed : ∀ entry ∈ l, ∃ id ∈ nodeMap, entry = some id

theorem belongs_map (nodeMap : List Node) : Belongs nodeMap (nodeMap.map some) where
  length := by simp
  indexed id hid := by rw [getElem?_map, getElem?_idxOf hid]; rfl
  departed entry hentry := by
    obtain ⟨id, hid, rfl⟩ := mem_map.mp hentry
    exact ⟨id, hid, rfl⟩

theorem Belongs.eq_map {nodeMap : List Node} (hnodup : nodeMap.Nodup) {l : List (Option Node)}
    (h : Belongs nodeMap l) : l = nodeMap.map some := by
  refine ext_getElem? fun i => ?_
  rw [getElem?_map]
  rcases Nat.lt_or_ge i nodeMap.length with hi | hi
  · have hat := h.indexed nodeMap[i] (getElem_mem hi)
    rw [hnodup.idxOf_getElem i hi] at hat
    rw [hat, getElem?_eq_getElem hi]
    rfl
  · rw [getElem?_eq_none (h.length.trans_le hi), getElem?_eq_none hi]
    rfl

/-- Connections, stubs and the clients of all services belong to the node at their index. -/
structure Aligned (c : Conn Node) : Prop where
  clientConn : Belongs c.nodeMap c.clientConn
  admin : Belongs c.nodeMap c.admin
  services : ∀ client ∈ c.services, Belongs c.nodeMap client

/-- Every index selected for a key is that of a node the hash table ranks first for the key. -/
def Routes (c : Conn Node) : Prop :=
  ∀ (sel : Selection Node) (op : NodeOp) (indices : List ℕ),
    selectNodesLocked c sel op = .ok indices → ∀ i ∈ indices, ∃ id ∈ sel.nodeKeys c op,
      c.clientConn[i]? = some (some id) ∧ c.admin[i]? = some (some id) ∧
        ∀ client ∈ c.services, client[i]? = some (some id)

variable {c : Conn Node} {ids : List Node}

theorem mem_selectLoop {status : Node → Option NodeState} {op : NodeOp}
    {indices : List ℕ} (h : selectLoop c status op ids = .ok indices) {i : ℕ} (hi : i ∈ indices) :
    ∃ id ∈ ids, c.index id = some i := by
  fun_induction selectLoop c status op ids generalizing indices
  case case1 =>
    cases h
    cases hi
  case case2 => cases h
  case case6 id ids state _ _ _ index hindex _ =>
    cases h
    exact ⟨id, mem_cons_self, by simpa [mem_singleton.mp hi] using hindex⟩
  case case7 id ids state _ _ _ index hindex _ ih =>
    obtain ⟨rest, hrest, rfl⟩ := Outcome.map_eq_ok.mp h
    rcases mem_cons.mp hi with rfl | hi
    · exact ⟨id, mem_cons_self, hindex⟩
    · obtain ⟨id', hid', hindex'⟩ := ih hrest hi
      exact ⟨id', mem_cons_of_mem id hid', hindex'⟩
  -- the nodes that are passed over
  all_goals
    rename_i ih
    obtain ⟨id', hid', hindex⟩ := ih h hi
    exact ⟨id', mem_cons_of_mem _ hid', hindex⟩

theorem Aligned.routes (h : Aligned c) : Routes c := by
  intro sel op indices hsel i hi
  have hloop : selectLoop c sel.nodeStatus op (sel.nodeKeys c op) = .ok indices := by
    rw [selectNodesLocked] at hsel
    split_ifs at hsel
    split at hsel <;> cases hsel
    assumption
  obtain ⟨id, hid, hindex⟩ := mem_selectLoop hloop hi
  obtain ⟨hmem, rfl⟩ : id ∈ c.nodeMap ∧ c.nodeMap.idxOf id = i := by
    simpa [index] using hindex
  exact ⟨id, hid, h.clientConn.indexed id hmem, h.admin.indexed id hmem,
    fun client hclient => (h.services client hclient).indexed id hmem⟩

/-! ## What an update does to aligned lists -/

/-- A connection with the same entries in all its lists. -/
def Conn.uniform (c : Conn Node) (l : List Node) : Conn Node :=
  { c with
    clientConn := l.map some
    admin := l.map some
    services := c.services.map fun _ => l.map some }

omit [DecidableEq Node] in
@[simp] theorem Conn.uniform_uniform (c : Conn Node) (l l' : List Node) :
    (c.uniform l).uniform l' = c.uniform l' := by
  simp [uniform]

theorem aligned_iff (c : Conn Node) : Aligned c ↔ c = c.uniform c.nodeMap := by
  constructor
  · intro h
    have hservices : c.services = c.services.map fun _ => c.nodeMap.map some := by
      conv_lhs => rw [← map_id c.services]
      exact map_congr_left fun client hclient => (h.services client hclient).eq_map c.nodup
    cases c with
    | mk nodeMap nodup clientConn admin services =>
      simp only [uniform, mk.injEq, true_and]
      exact ⟨h.clientConn.eq_map nodup, h.admin.eq_map nodup, hservices⟩
  · intro h
    rw [h]
    refine ⟨belongs_map _, belongs_map _, fun client hclient => ?_⟩
    obtain ⟨_, -, rfl⟩ := mem_map.mp hclient
    exact belongs_map _

omit [DecidableEq Node] in
theorem sendAll_uniform {notify : List (Option Node) → Option (List (Option Node))}
    {l l' : List (Option Node)} (h : notify l = some l') (services : List (List (Option Node))) :
    sendAll notify (services.map fun _ => l) = some (services.map fun _ => l') := by
  induction services with
  | nil => rfl
  | cons client services ih =>
    rw [sendAll] at ih ⊢
    rw [map_cons, mapM_cons, h, ih]
    rfl

variable {index : ℕ} {l : List Node}

omit [DecidableEq Node] in
theorem insertAt_map (h : index ≤ l.length) (id : Node) :
    insertAt (l.map some) index (some id) = some ((l.insertIdx index id).map some) := by
  rw [insertAt, if_pos (by simpa using h), map_insertIdx]

variable {dial : Node → Bool} {old : List Node}

/-- Inserting into aligned lists inserts the same node everywhere. -/
theorem joinMembers_uniform {ids l : List Node} (c : Conn Node)
    (hroom : Room old index ids l) (hdial : ∀ id ∈ ids, id ∉ old → dial id) :
    joinMembers dial old index ids (c.uniform l) =
      some (c.uniform (insertNew old index ids l), true) := by
  induction ids generalizing index l with
  | nil => rfl
  | cons id ids ih =>
    have hrest := ih hroom.tail fun b hb => hdial b (mem_cons_of_mem id hb)
    rw [joinMembers, insertNew]
    by_cases hid : id ∈ old
    · rw [if_pos hid, if_pos hid] at *
      exact hrest
    have hd : dial id = true := hdial id mem_cons_self hid
    have hjoined : memberJoined ((l.insertIdx index id).map some) index (l.map some) =
        some ((l.insertIdx index id).map some) := by
      rw [memberJoined, getElem?_map, getElem?_insertIdx_self, if_pos hroom.le]
      exact insertAt_map hroom.le id
    rw [if_neg hid] at hrest ⊢
    rw [if_neg hid]
    simp only [uniform, hd, if_true, insertAt_map hroom.le, bind_some,
      sendAll_uniform hjoined]
    exact hrest

omit [DecidableEq Node] in
theorem removeAt_map (h : index < l.length) :
    removeAt (l.map some) index = some ((l.eraseIdx index).map some) := by
  rw [removeAt, if_pos (by simpa using h), eraseIdx_map]

omit [DecidableEq Node] in
/-- The only entry of a list is removed by making a new one. -/
theorem eraseIdx_of_length_le_one (h : index < l.length) (hone : l.length ≤ 1) :
    (l.eraseIdx index).map some = [] := by
  have hlen := length_eraseIdx_of_lt h
  rw [map_eq_nil_iff, ← length_eq_zero_iff]
  omega

/-- Removing from aligned lists removes the same node everywhere. -/
theorem leaveMembers_uniform (old new order : List Node) (c : Conn Node) (l : List Node) :
    leaveMembers old new order (c.uniform l) =
      some (c.uniform (eraseEach ((order.filter (· ∉ new)).map old.idxOf) l)) := by
  induction order generalizing l with
  | nil => rfl
  | cons id order ih =>
    rw [leaveMembers]
    by_cases hid : id ∈ new
    · rw [if_pos hid, filter_cons_of_neg (by simpa using hid)]
      exact ih l
    rw [if_neg hid, filter_cons_of_pos (by simpa using hid), map_cons, eraseEach_cons,
      ← ih]
    by_cases hlen : l.length ≤ old.idxOf id
    · rw [if_pos (by simpa [uniform] using hlen), eraseIdx_of_length_le hlen]
    have hlt : old.idxOf id < l.length := by omega
    have hone : removeMember (l.map some) (old.idxOf id) =
        some ((l.eraseIdx (old.idxOf id)).map some) := by
      rw [removeMember, length_map]
      split
      · exact removeAt_map hlt
      · rw [eraseIdx_of_length_le_one hlt (by omega)]
    have hleft : memberLeft (old.idxOf id) (l.map some) =
        some ((l.eraseIdx (old.idxOf id)).map some) := by
      rw [memberLeft, length_map]
      split
      · rw [eraseIdx_of_length_le_one hlt (by omega)]
      · exact removeAt_map hlt
    have hopen : ((l.map some)[old.idxOf id]?).join = some l[old.idxOf id] := by
      rw [getElem?_map, getElem?_eq_getElem hlt]
      rfl
    rw [if_neg (by simpa [uniform] using hlen)]
    simp only [uniform, hopen, hone, bind_some, sendAll_uniform hleft]

/-- A failed dial leaves an entry without a connection, whatever the lists were. -/
theorem none_mem_of_dial_failed {c c' : Conn Node}
    (h : joinMembers dial old index ids c = some (c', false)) : none ∈ c'.clientConn := by
  induction ids generalizing index c with
  | nil => simp [joinMembers] at h
  | cons id ids ih =>
    rw [joinMembers] at h
    split at h
    · exact ih h
    obtain ⟨clientConn, hconn, h⟩ := bind_eq_some_iff.mp h
    split at h
    · obtain ⟨admin, -, h⟩ := bind_eq_some_iff.mp h
      obtain ⟨services, -, h⟩ := bind_eq_some_iff.mp h
      exact ih h
    · rename_i hdial
      obtain ⟨rfl, -⟩ : { c with clientConn } = c' ∧ true = true := by simpa using h
      rw [if_neg hdial, insertAt] at hconn
      split at hconn
      · rename_i hle
        cases hconn
        exact (mem_insertIdx hle).mpr (.inl rfl)
      · cases hconn

/-- An update that dials every new member returns only if it could dial all of them. -/
theorem dial_of_joinMembers {c c' : Conn Node}
    (h : joinMembers dial old index ids c = some (c', true)) : ∀ id ∈ ids, id ∉ old → dial id := by
  induction ids generalizing index c with
  | nil => simp
  | cons id ids ih =>
    intro b hb hnew
    rw [joinMembers] at h
    rcases mem_cons.mp hb with rfl | hb
    · rw [if_neg hnew] at h
      obtain ⟨clientConn, -, h⟩ := bind_eq_some_iff.mp h
      split at h
      · assumption
      · simp at h
    · split at h
      · exact ih h b hb hnew
      obtain ⟨clientConn, -, h⟩ := bind_eq_some_iff.mp h
      split at h
      · obtain ⟨admin, -, h⟩ := bind_eq_some_iff.mp h
        obtain ⟨services, -, h⟩ := bind_eq_some_iff.mp h
        exact ih h b hb hnew
      · simp at h

/-! ## Histories of updates -/

/-- The updates that aligned lists can follow: every new node can be dialled, nodes only join or
only leave, the nodes that stay keep their order, and those that leave are visited from the highest
index to the lowest. -/
structure Orderly (c : Conn Node) (u : Update Node) : Prop where
  dialled : ∀ id ∈ u.ids, id ∉ c.nodeMap → u.dial id
  followable : Followable c.nodeMap u.ids (u.order c.nodeMap)

/-- The connection after an update that dials all new nodes. -/
theorem updateHealth_of_aligned (hc : Aligned c) {u : Update Node}
    (hdial : ∀ id ∈ u.ids, id ∉ c.nodeMap → u.dial id) :
    updateHealth c u = some (uniform { c with nodeMap := u.ids, nodup := u.nodup }
      (follow c.nodeMap u.ids (u.order c.nodeMap))) := by
  have hstart : ({ c with nodeMap := u.ids, nodup := u.nodup } : Conn Node) =
      uniform { c with nodeMap := u.ids, nodup := u.nodup } c.nodeMap := by
    have hconn := (aligned_iff c).mp hc
    cases c with
    | mk nodeMap nodup clientConn admin services =>
      simp only [uniform, mk.injEq, true_and] at hconn ⊢
      exact hconn
  rw [updateHealth, hstart, joinMembers_uniform _ (room_of_nodup u.nodup) hdial]
  simp [leaveMembers_uniform, follow]

/-- An update keeps the lists aligned exactly if it is orderly. -/
theorem aligned_updateHealth_iff (hc : Aligned c) (u : Update Node) :
    (∃ c', updateHealth c u = some c' ∧ Aligned c') ↔ Orderly c u := by
  constructor
  · rintro ⟨c', hupdate, hc'⟩
    have hdial : ∀ id ∈ u.ids, id ∉ c.nodeMap → u.dial id := by
      obtain ⟨⟨joined, ok⟩, hjoin, hleave⟩ := bind_eq_some_iff.mp hupdate
      cases ok with
      | true => exact dial_of_joinMembers hjoin
      | false =>
        obtain rfl : joined = c' := by simpa using hleave
        obtain ⟨id, -, hid⟩ := hc'.clientConn.departed none (none_mem_of_dial_failed hjoin)
        cases hid
    refine ⟨hdial, (follow_eq_iff c.nodup u.nodup (u.perm c.nodeMap)).mp ?_⟩
    rw [updateHealth_of_aligned hc hdial] at hupdate
    cases hupdate
    have hconn := hc'.clientConn.eq_map u.nodup
    exact map_injective_iff.mpr (some_injective Node) hconn
  · intro h
    refine ⟨_, updateHealth_of_aligned hc h.dialled, ?_⟩
    rw [(follow_eq_iff c.nodup u.nodup (u.perm c.nodeMap)).mpr h.followable]
    exact (aligned_iff _).mpr (uniform_uniform _ _ _).symm

inductive MemberEvent (Node : Type) where
  | update (u : Update Node)
  | register

variable (s : Option (Conn Node))

/-- One event; after a panic nothing happens any more. -/
def memberStep : MemberEvent Node → Option (Conn Node)
  | .update u => s.bind fun c => updateHealth c u
  | .register => s.map registerService

/-- The process runs, its lists are aligned, and it sends every key to the right nodes. -/
def Healthy : Prop := ∃ c, s = some c ∧ Aligned c ∧ Routes c

/-- The condition on an event: an update is orderly. -/
def OrderlyEvent : MemberEvent Node → Prop
  | .update u => ∀ c, s = some c → Orderly c u
  | .register => True

theorem Aligned.registerService (h : Aligned c) : Aligned c.registerService := { h with
  services := forall_mem_cons.mpr ⟨h.clientConn, h.services⟩ }

theorem healthy_memberStep_iff {s : Option (Conn Node)} (hs : Healthy s) (e : MemberEvent Node) :
    Healthy (memberStep s e) ↔ OrderlyEvent s e := by
  obtain ⟨c, rfl, hc, -⟩ := hs
  cases e with
  | update u =>
    constructor
    · rintro ⟨c', hstep, hc', -⟩ d hd
      cases hd
      exact (aligned_updateHealth_iff hc u).mp ⟨c', hstep, hc'⟩
    · intro h
      obtain ⟨c', hstep, hc'⟩ := (aligned_updateHealth_iff hc u).mpr (h c rfl)
      exact ⟨c', hstep, hc', hc'.routes⟩
  | register =>
    have hc' := hc.registerService
    exact ⟨fun _ => trivial, fun _ => ⟨_, rfl, hc', hc'.routes⟩⟩

/-- During a history of updates the lists stay aligned, and every key is sent to the right nodes,
exactly if every update is orderly. -/
theorem aligned_throughout_iff (ids : { ids : List Node // ids.Nodup }) (services : ℕ)
    (es : List (MemberEvent Node)) :
    (∀ es', es' <+: es → Healthy (Run.exec memberStep (some (connect ids services)) es')) ↔
      Run.Meets memberStep OrderlyEvent (some (connect ids services)) es := by
  have hstart : Aligned (connect ids services) :=
    (aligned_iff _).mpr (by simp [connect, uniform])
  exact @Run.forall_prefix_iff_meets _ _ memberStep OrderlyEvent (fun _ => True) Healthy
    (fun _ _ _ => trivial) (fun s e _ hs => healthy_memberStep_iff hs e) _ trivial
    ⟨_, rfl, hstart, hstart.routes⟩ es

/-- Two nodes, of which the second is replaced by a third one. -/
def replaceSecond : Update ℕ where
  ids := [1, 3]
  nodup := by decide
  order := id
  perm _ := .refl _
  dial _ := true

/-- After one node has replaced another, the connection of the new node is closed and the one of
the old node is kept at its index. -/
theorem replaced_node_misaligned :
    ¬ Healthy (Run.exec memberStep (some (connect ⟨[1, 2], by decide⟩ 1))
      [.update replaceSecond]) := by
  rintro ⟨c, hc, haligned, -⟩
  cases hc
  exact absurd (haligned.clientConn.indexed 3 (by decide)) (by decide)

end QuantaStream.Shared
