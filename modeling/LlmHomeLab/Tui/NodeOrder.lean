import LlmHomeLab.Gateway.System
import LlmHomeLab.Lib.Runs

/-! # The order of the nodes

`/v1/nodes` lists the nodes by their positions, and the dashboard of `tui/app.py` writes positions
when the operator moves a row: those that differ from the copies it has of the last response it has
rendered. Polls go on while a move does.
-/

namespace LlmHomeLab

/-! ## The list of the server -/

/-- `(position is None, position or 0)`. -/
def nodeKey (position : Option Int) : Bool ×ₗ Int := toLex (position.isNone, position.getD 0)

/-- `list_nodes`: the hosts sorted by position, those of the same position in the order of their
registration. -/
def listNodes (reg : HostRegistry) : List (String × Option Int) :=
  ((reg.hostRefs.map reg.heap).insertionSort fun a b =>
      nodeKey a.capabilities.position ≤ nodeKey b.capabilities.position).map fun host =>
    (host.hostId, host.capabilities.position)

/-- The position of a node on the server. -/
def positionOf (reg : HostRegistry) (hostId : String) : Option Int :=
  (reg.lookup hostId).bind fun info => info.capabilities.position

theorem hostId_of_mem {reg : HostRegistry} {info : HostInfo}
    (h : info ∈ reg.hostRefs.map reg.heap) : reg.lookup info.hostId = some info := by
  obtain ⟨ref, href, rfl⟩ := List.mem_map.mp h
  obtain ⟨id, hid⟩ := (Dict.mem_values _).mp href
  rw [reg.hostId_eq hid, HostRegistry.lookup, hid]
  rfl

theorem snd_of_mem_listNodes {reg : HostRegistry} {node : String × Option Int}
    (h : node ∈ listNodes reg) : node.2 = positionOf reg node.1 := by
  obtain ⟨info, hinfo, rfl⟩ := List.mem_map.mp h
  rw [List.mem_insertionSort] at hinfo
  rw [positionOf, hostId_of_mem hinfo]
  rfl

theorem perm_listNodes (reg : HostRegistry) :
    ((listNodes reg).map Prod.fst).Perm reg.hosts.keys := by
  have hids : (reg.hostRefs.map reg.heap).map (·.hostId) = reg.hosts.keys := by
    rw [HostRegistry.hostRefs, Dict.values, Dict.keys, List.map_map, List.map_map]
    refine List.map_congr_left fun kv hkv => ?_
    exact reg.hostId_eq ((Dict.get?_eq_some _).mpr hkv)
  rw [← hids, listNodes, List.map_map]
  exact (List.perm_insertionSort _ _).map _

/-- The nodes have the given positions on the server. -/
def InPlace (reg : HostRegistry) (nodes : List (String × Nat)) : Prop :=
  ∀ node ∈ nodes, positionOf reg node.1 = some (node.2 : Int)

instance (reg : HostRegistry) (nodes : List (String × Nat)) : Decidable (InPlace reg nodes) :=
  inferInstanceAs (Decidable (∀ node ∈ nodes, _))

theorem InPlace.append {reg : HostRegistry} {l l' : List (String × Nat)} (h : InPlace reg l)
    (h' : InPlace reg l') : InPlace reg (l ++ l') := fun node hnode =>
  (List.mem_append.mp hnode).elim (h node) (h' node)

/-- Where every node has its place in an order as its position, the nodes are listed in it. -/
theorem listNodes_of_inPlace {reg : HostRegistry} {order : List String}
    (hperm : order.Perm reg.hosts.keys) (hplaced : InPlace reg order.zipIdx) :
    (listNodes reg).map Prod.fst = order := by
  let le : String → String → Prop := fun a b =>
    nodeKey (positionOf reg a) ≤ nodeKey (positionOf reg b)
  have hsorted : ((listNodes reg).map Prod.fst).Pairwise le := by
    rw [listNodes, List.map_map, List.pairwise_map]
    refine (List.pairwise_insertionSort _ (reg.hostRefs.map reg.heap)).imp_of_mem ?_
    intro a b ha hb hab
    rw [List.mem_insertionSort] at ha hb
    simp only [le, positionOf, Function.comp_apply, hostId_of_mem ha, hostId_of_mem hb,
      Option.bind_some]
    exact hab
  have hkey : ∀ i (hi : i < order.length), nodeKey (positionOf reg order[i]) =
      toLex (false, (i : Int)) := by
    intro i hi
    rw [hplaced (order[i], i) (List.mem_zipIdx_iff_getElem?.mpr (by simp [hi]))]
    rfl
  have horder : order.Pairwise le := by
    rw [List.pairwise_iff_getElem]
    intro i j hi hj hij
    simp only [le, hkey i hi, hkey j hj]
    exact Prod.Lex.toLex_le_toLex.mpr (Or.inr ⟨rfl, Int.ofNat_le.mpr hij.le⟩)
  refine List.Perm.eq_of_pairwise ?_ hsorted horder ((perm_listNodes reg).trans hperm.symm)
  -- two nodes of the order with the same key have the same place
  intro a b ha hb hab hba
  have ha' : a ∈ order := ((perm_listNodes reg).trans hperm.symm).subset ha
  obtain ⟨i, hi, rfl⟩ := List.getElem_of_mem ha'
  obtain ⟨j, hj, rfl⟩ := List.getElem_of_mem hb
  have hsame := le_antisymm hab hba
  rw [hkey i hi, hkey j hj] at hsame
  have hij : i = j := Int.natCast_inj.mp (congrArg Prod.snd (toLex_inj.mp hsame))
  subst hij
  rfl

/-- The copies of the positions of these nodes are the positions. -/
def Copied (reg : HostRegistry) (positions : Dict String (Option Int)) (hostIds : List String) :
    Prop :=
  ∀ hostId ∈ hostIds, positions.get? hostId = some (positionOf reg hostId)

theorem copied_of_listed {reg : HostRegistry} {nodes : List (String × Option Int)}
    (h : ∀ node ∈ nodes, node.2 = positionOf reg node.1) :
    Copied reg (nodes.foldl (fun d node => d.set node.1 node.2) .empty) (nodes.map Prod.fst) := by
  induction nodes using List.reverseRecOn with
  | nil => exact fun _ hmem => absurd hmem List.not_mem_nil
  | append_singleton nodes node ih =>
    intro hostId hmem
    rw [List.foldl_append, List.foldl_cons, List.foldl_nil, Dict.get?_set]
    split
    · next heq => rw [h node (by simp), heq]
    · next hne =>
      refine ih (fun node' hnode' => h node' (List.mem_append_left _ hnode')) hostId ?_
      simpa [hne] using hmem

/-! ## A PATCH of a position -/

/-- The registry after a PATCH of a position. -/
def placed (reg : HostRegistry) (hostId : String) (position now : Int) : HostRegistry :=
  registryAfter reg (.patch hostId { position := some (some position) } now)

theorem keys_placed {reg : HostRegistry} {hostId : String} {position now : Int} :
    (placed reg hostId position now).hosts.keys = reg.hosts.keys := by
  simp only [placed, registryAfter]
  split
  · rfl
  · next existing hlookup =>
    obtain ⟨ref, href, -⟩ := HostRegistry.lookup_eq_some.mp hlookup
    have hcontains : reg.hosts.contains hostId = true := (Dict.contains_iff _).mpr ⟨ref, href⟩
    rw [HostRegistry.register, Dict.keys_set, hcontains, if_pos rfl]

theorem positionOf_placed {reg : HostRegistry} {hostId other : String} {position now : Int}
    (h : hostId ∈ reg.hosts.keys) : positionOf (placed reg hostId position now) other =
      if other = hostId then some position else positionOf reg other := by
  obtain ⟨ref, href⟩ := (Dict.mem_keys _).mp h
  have hlookup : reg.lookup hostId = some (reg.heap ref) :=
    HostRegistry.lookup_eq_some.mpr ⟨ref, href, rfl⟩
  simp only [placed, registryAfter, hlookup, positionOf, HostRegistry.lookup_register]
  split <;> rfl

/-- A PATCH leaves the other nodes in their places. -/
theorem InPlace.placed {reg : HostRegistry} {nodes : List (String × Nat)} {hostId : String}
    {position now : Int} (hmem : hostId ∈ reg.hosts.keys) (h : InPlace reg nodes)
    (hne : hostId ∉ nodes.map Prod.fst) : InPlace (placed reg hostId position now) nodes := by
  intro node hnode
  rw [positionOf_placed hmem, if_neg]
  · exact h node hnode
  · rintro rfl
    exact hne (List.mem_map_of_mem hnode)

/-- A PATCH leaves the copies of the other nodes as good as they were. -/
theorem Copied.placed {reg : HostRegistry} {positions : Dict String (Option Int)}
    {hostIds : List String} {hostId : String} {position now : Int}
    (hmem : hostId ∈ reg.hosts.keys) (h : Copied reg positions hostIds) (hne : hostId ∉ hostIds) :
    Copied (placed reg hostId position now) positions hostIds := by
  intro other hother
  rw [positionOf_placed hmem, if_neg]
  · exact h other hother
  · rintro rfl
    exact hne hother

/-! ## The dashboard -/

/-- Where a poll is: its requests are sent, the server has answered, or the rows are rendered and
the load charts are being mounted. -/
inductive PollPhase where
  | idle
  | requested
  | answered (nodes : List (String × Option Int))
  | rendered
  deriving DecidableEq

/-- Where a move is: the PATCHes of the new order, of which the first that is left is on its way
(`applied`: the server has made it), or the poll at its end. -/
inductive MovePhase where
  | idle
  | patching (order : List String) (target : Nat) (rest : List (String × Nat)) (applied : Bool)
  | polling
  deriving DecidableEq

/-- The server and the dashboard. `shown` are the rows of the table, `rowOrder` and `positions` are
`_node_row_order` and the positions in `_nodes_by_id`; `expected` is the order that was shown when
the last move began, with the two rows exchanged. -/
structure Dashboard where
  server : HostRegistry
  shown : List String := []
  rowOrder : List String := []
  positions : Dict String (Option Int) := .empty
  cursor : Nat := 0
  poll : PollPhase := .idle
  move : MovePhase := .idle
  expected : Option (List String) := none

/-- What may happen next. -/
inductive DashboardEvent where
  /-- The timer calls `poll`. -/
  | timer
  /-- The server answers the poll. -/
  | answer
  /-- The response has arrived and is rendered. -/
  | render
  /-- Its rendering raises, before the first row. -/
  | renderFails
  /-- The poll fails. -/
  | pollFails
  /-- The poll is over. -/
  | pollEnds
  /-- The operator selects a row. -/
  | select (row : Nat)
  /-- The operator moves the selected row, by -1 or 1. -/
  | press (down : Bool)
  /-- The server makes the PATCH that is on its way. -/
  | apply (now : Int)
  /-- The move goes on after a PATCH. -/
  | patched

/-- `order[i], order[j] = order[j], order[i]`. -/
def exchange (l : List String) (i j : Nat) : List String :=
  match l[i]?, l[j]? with
  | some a, some b => (l.set i b).set j a
  | _, _ => l

theorem perm_exchange (l : List String) (i j : Nat) : (exchange l i j).Perm l := by
  unfold exchange
  split
  · next a b ha hb =>
    obtain ⟨hi, rfl⟩ := List.getElem?_eq_some_iff.mp ha
    obtain ⟨hj, rfl⟩ := List.getElem?_eq_some_iff.mp hb
    exact List.set_set_perm hi hj
  · exact .refl _

namespace Dashboard

variable {s t : Dashboard} {e : DashboardEvent}

/-- `poll`, up to its first await; a poll that is requested while one is running is skipped. -/
def startPoll (s : Dashboard) : Dashboard :=
  match s.poll with
  | .idle => { s with poll := .requested }
  | _ => s

/-- The poll is over, and with it the move that waits for it. -/
def endPoll (s : Dashboard) : Dashboard :=
  match s.move with
  | .polling => { s with poll := .idle, move := .idle }
  | _ => { s with poll := .idle }

/-- `_render_nodes`: clearing the table puts the cursor on the first row. -/
def renderNodes (s : Dashboard) (nodes : List (String × Option Int)) : Dashboard :=
  let rows := nodes.map Prod.fst
  { s with
    shown := rows
    rowOrder := rows
    positions := nodes.foldl (fun d node => d.set node.1 node.2) .empty
    cursor := match if s.shown = [] then none else s.rowOrder[s.cursor]? with
      | some selected => if selected ∈ rows then rows.idxOf selected else 0
      | none => 0
    poll := .rendered }

/-- A rendering that raises has cleared the rows. -/
def failRender (s : Dashboard) : Dashboard :=
  { s with shown := [], rowOrder := [], positions := .empty, cursor := 0 }.endPoll

/-- `self._nodes_by_id[host_id].get("position") == position`. -/
def upToDate (s : Dashboard) (node : String × Nat) : Bool :=
  s.positions.get? node.1 = some (some (node.2 : Int))

/-- The loop over the order is at its end: the move polls. -/
def endLoop (s : Dashboard) (order : List String) (target : Nat) : Dashboard :=
  match s.poll with
  | .idle => { s with rowOrder := order, cursor := target, poll := .requested, move := .polling }
  | _ => { s with rowOrder := order, cursor := target, move := .idle }

/-- The loop over the order goes on to the next node that is not left out, or to its end. A node
that is not in `_nodes_by_id` is a `KeyError`, which takes the app down. -/
def goOn (s : Dashboard) (order : List String) (target : Nat) (rest : List (String × Nat)) :
    Option Dashboard :=
  match rest.dropWhile s.upToDate with
  | [] => some (s.endLoop order target)
  | node :: rest =>
    if s.positions.contains node.1 then
      some { s with move := .patching order target (node :: rest) false }
    else none

/-- The row the selected one is exchanged with, where there is one. -/
def target? (s : Dashboard) (down : Bool) : Option Nat :=
  let target : Int := s.cursor + if down then 1 else -1
  if s.shown ≠ [] ∧ 0 ≤ target ∧ target < s.rowOrder.length then some target.toNat else none

/-- `_move_selected_node`, up to its first await. -/
def press (s : Dashboard) (down : Bool) : Option Dashboard :=
  match s.target? down with
  | none => some s
  | some target =>
    let order := exchange s.rowOrder s.cursor target
    { s with expected := some (exchange s.shown s.cursor target) }.goOn order target order.zipIdx

/-- One move runs at a time, and only the moves change the nodes. Nothing happens after a move that
raises. -/
def step (s : Dashboard) : DashboardEvent → Option Dashboard
  | .timer => some s.startPoll
  | .answer =>
    match s.poll with
    | .requested => some { s with poll := .answered (listNodes s.server) }
    | _ => none
  | .render =>
    match s.poll with
    | .answered nodes => some (s.renderNodes nodes)
    | _ => none
  | .renderFails =>
    match s.poll with
    | .answered _ => some s.failRender
    | _ => none
  | .pollFails =>
    match s.poll with
    | .idle => none
    | _ => some s.endPoll
  | .pollEnds =>
    match s.poll with
    | .rendered => some s.endPoll
    | _ => none
  | .select row => if row < s.shown.length then some { s with cursor := row } else none
  | .press down =>
    match s.move with
    | .idle => s.press down
    | _ => none
  | .apply now =>
    match s.move with
    | .patching order target (node :: rest) false =>
      some { s with
        server := placed s.server node.1 node.2 now
        move := .patching order target (node :: rest) true }
    | _ => none
  | .patched =>
    match s.move with
    | .patching order target (_ :: rest) true => s.goOn order target rest
    | _ => none

/-- What a step does, by its event. -/
inductive Change (s : Dashboard) : DashboardEvent → Dashboard → Prop
  | timer : Change s .timer s.startPoll
  | answer (hpoll : s.poll = .requested) :
      Change s .answer { s with poll := .answered (listNodes s.server) }
  | render (nodes : List (String × Option Int)) (hpoll : s.poll = .answered nodes) :
      Change s .render (s.renderNodes nodes)
  | renderFails (nodes : List (String × Option Int)) (hpoll : s.poll = .answered nodes) :
      Change s .renderFails s.failRender
  | pollFails (hpoll : s.poll ≠ .idle) : Change s .pollFails s.endPoll
  | pollEnds (hpoll : s.poll = .rendered) : Change s .pollEnds s.endPoll
  | select (row : Nat) (hrow : row < s.shown.length) :
      Change s (.select row) { s with cursor := row }
  | press (down : Bool) (t : Dashboard) (hmove : s.move = .idle) (hpress : s.press down = some t) :
      Change s (.press down) t
  | apply (now : Int) (order : List String) (target : Nat) (node : String × Nat)
      (rest : List (String × Nat)) (hmove : s.move = .patching order target (node :: rest) false) :
      Change s (.apply now) { s with
        server := placed s.server node.1 node.2 now
        move := .patching order target (node :: rest) true }
  | patched (order : List String) (target : Nat) (node : String × Nat)
      (rest : List (String × Nat)) (t : Dashboard)
      (hmove : s.move = .patching order target (node :: rest) true)
      (hgoOn : s.goOn order target rest = some t) : Change s .patched t

theorem change_of_step (h : s.step e = some t) : s.Change e t := by
  cases e with
  | timer =>
    cases h
    exact .timer
  | answer =>
    simp only [step] at h
    split at h
    · next hpoll =>
      cases h
      exact .answer hpoll
    · cases h
  | render =>
    simp only [step] at h
    split at h
    · next nodes hpoll =>
      cases h
      exact .render nodes hpoll
    · cases h
  | renderFails =>
    simp only [step] at h
    split at h
    · next nodes hpoll =>
      cases h
      exact .renderFails nodes hpoll
    · cases h
  | pollFails =>
    simp only [step] at h
    split at h
    · cases h
    · next hpoll =>
      cases h
      exact .pollFails hpoll
  | pollEnds =>
    simp only [step] at h
    split at h
    · next hpoll =>
      cases h
      exact .pollEnds hpoll
    · cases h
  | select row =>
    obtain ⟨hrow, rfl⟩ := Option.ite_some_none_eq_some.mp h
    exact .select row hrow
  | press down =>
    simp only [step] at h
    split at h
    · next hmove => exact .press down t hmove h
    · cases h
  | apply now =>
    simp only [step] at h
    split at h
    · next order target node rest hmove =>
      cases h
      exact .apply now order target node rest hmove
    · cases h
  | patched =>
    simp only [step] at h
    split at h
    · next order target node rest hmove => exact .patched order target node rest t hmove h
    · cases h

/-! ## Statement -/

/-- While no move is writing, the nodes are listed as they were shown when the last move began, with
the two rows exchanged. -/
def Persisted (s : Dashboard) : Prop :=
  (∀ order target rest applied, s.move ≠ .patching order target rest applied) →
    ∀ order, s.expected = some order → (listNodes s.server).map Prod.fst = order

/-- The nodes that are left out for their copies have their places on the server. -/
def LeavesOutPlaced (s : Dashboard) (rest : List (String × Nat)) : Prop :=
  InPlace s.server (rest.takeWhile s.upToDate)

/-- A move begins with the rows that are shown, and leaves out a node only if the server has it in
its place. -/
def InStep (s : Dashboard) : DashboardEvent → Prop
  | .press down => ∀ target, s.target? down = some target →
    s.shown = s.rowOrder ∧ s.LeavesOutPlaced (exchange s.rowOrder s.cursor target).zipIdx
  | .patched => ∀ order target node rest applied,
    s.move = .patching order target (node :: rest) applied → s.LeavesOutPlaced rest
  | _ => True

instance (rest : List (String × Nat)) : Decidable (s.LeavesOutPlaced rest) :=
  inferInstanceAs (Decidable (InPlace _ _))

instance : Decidable (s.InStep e) :=
  match e with
  | .press down => inferInstanceAs (Decidable (∀ target ∈ s.target? down, _))
  | .patched =>
    match hmove : s.move with
    | .patching _ _ (_ :: rest) _ =>
      decidable_of_iff (s.LeavesOutPlaced rest)
        ⟨fun h _ _ _ _ _ heq => by cases hmove.symm.trans heq; exact h,
          fun h => h _ _ _ _ _ hmove⟩
    | .patching _ _ [] _ => .isTrue fun _ _ _ _ _ heq => by cases hmove.symm.trans heq
    | .idle => .isTrue fun _ _ _ _ _ heq => by cases hmove.symm.trans heq
    | .polling => .isTrue fun _ _ _ _ _ heq => by cases hmove.symm.trans heq
  | .timer | .answer | .render | .renderFails | .pollFails | .pollEnds | .select _ | .apply _ =>
    .isTrue trivial

/-! ## Invariant -/

/-- What holds in every state of a run whose steps are in step. -/
structure Inv (s : Dashboard) : Prop where
  rowOrder : s.rowOrder = [] ∨ s.rowOrder.Perm s.server.hosts.keys
  answered : ∀ nodes, s.poll = .answered nodes → (nodes.map Prod.fst).Perm s.server.hosts.keys
  patching : ∀ order target rest applied, s.move = .patching order target rest applied →
    s.expected = some order ∧ order.Perm s.server.hosts.keys ∧
      ∃ done, order.zipIdx = done ++ rest ∧ InPlace s.server done ∧
        (applied = true → InPlace s.server (rest.take 1))
  written : (∀ order target rest applied, s.move ≠ .patching order target rest applied) →
    ∀ order, s.expected = some order →
      order.Perm s.server.hosts.keys ∧ InPlace s.server order.zipIdx

theorem Inv.persisted (h : Inv s) : s.Persisted := by
  intro hidle order hexpected
  obtain ⟨hperm, hplaced⟩ := h.written hidle order hexpected
  exact listNodes_of_inPlace hperm hplaced

theorem inv_init (reg : HostRegistry) : Inv { server := reg } where
  rowOrder := .inl rfl
  answered := by simp
  patching := by simp
  written := by simp

theorem inv_startPoll (h : Inv s) : Inv s.startPoll := by
  unfold startPoll
  split
  · exact ⟨h.rowOrder, by simp, h.patching, h.written⟩
  · exact h

theorem inv_endPoll (h : Inv s) : Inv s.endPoll := by
  unfold endPoll
  split
  · next hmove =>
    exact ⟨h.rowOrder, by simp, by simp, fun _ => h.written (by simp [hmove])⟩
  · exact ⟨h.rowOrder, by simp, h.patching, h.written⟩

theorem inv_renderNodes {nodes : List (String × Option Int)} (h : Inv s)
    (hpoll : s.poll = .answered nodes) : Inv (s.renderNodes nodes) :=
  ⟨.inr (h.answered nodes hpoll), by simp [renderNodes], h.patching, h.written⟩

theorem inv_failRender (h : Inv s) : Inv s.failRender :=
  inv_endPoll ⟨.inl rfl, h.answered, h.patching, h.written⟩

theorem inv_endLoop {order : List String} {target : Nat} (h : ∀ nodes, s.poll = .answered nodes →
      (nodes.map Prod.fst).Perm s.server.hosts.keys)
    (hexpected : s.expected = some order) (hperm : order.Perm s.server.hosts.keys)
    (hplaced : InPlace s.server order.zipIdx) : Inv (s.endLoop order target) := by
  have hwritten : ∀ order', s.expected = some order' →
      order'.Perm s.server.hosts.keys ∧ InPlace s.server order'.zipIdx := by
    intro order' ho
    obtain rfl : order = order' := Option.some.inj (hexpected.symm.trans ho)
    exact ⟨hperm, hplaced⟩
  unfold endLoop
  split
  · exact ⟨.inr hperm, by simp, by simp, fun _ => hwritten⟩
  · exact ⟨.inr hperm, h, by simp, fun _ => hwritten⟩

/-- The loop goes on, the nodes before the rest being in their places: it leaves out nodes that are
in theirs. -/
theorem inv_goOn {order : List String} {target : Nat} {done rest : List (String × Nat)}
    (h : s.goOn order target rest = some t)
    (hanswered : ∀ nodes, s.poll = .answered nodes →
      (nodes.map Prod.fst).Perm s.server.hosts.keys)
    (hrowOrder : s.rowOrder = [] ∨ s.rowOrder.Perm s.server.hosts.keys)
    (hexpected : s.expected = some order) (hperm : order.Perm s.server.hosts.keys)
    (hsplit : order.zipIdx = done ++ rest) (hdone : InPlace s.server done)
    (hout : s.LeavesOutPlaced rest) : Inv t := by
  have hdone' := hdone.append hout
  rw [← rest.takeWhile_append_dropWhile (p := s.upToDate), ← List.append_assoc] at hsplit
  unfold goOn at h
  split at h
  · next hrest =>
    cases h
    rw [hrest, List.append_nil] at hsplit
    exact inv_endLoop hanswered hexpected hperm (hsplit ▸ hdone')
  · next node rest' hrest =>
    obtain ⟨-, rfl⟩ := Option.ite_some_none_eq_some.mp h
    rw [hrest] at hsplit
    refine ⟨hrowOrder, hanswered, ?_, by simp⟩
    intro order' target' rest applied hmove
    simp only [MovePhase.patching.injEq] at hmove
    obtain ⟨rfl, rfl, rfl, rfl⟩ := hmove
    exact ⟨hexpected, hperm, _, hsplit, hdone', by simp⟩

/-- A row can be moved only where there are rows. -/
theorem perm_rowOrder {down : Bool} {target : Nat} (h : Inv s)
    (htarget : s.target? down = some target) : s.rowOrder.Perm s.server.hosts.keys := by
  refine h.rowOrder.resolve_left fun hnil => ?_
  simp only [target?, hnil, List.length_nil, Nat.cast_zero, Option.ite_none_right_eq_some]
    at htarget
  omega

theorem inv_press {down : Bool} (h : Inv s) (hin : s.InStep (.press down))
    (hpress : s.press down = some t) : Inv t := by
  unfold press at hpress
  split at hpress
  · cases hpress
    exact h
  · next target htarget =>
    obtain ⟨hshown, hout⟩ := hin target htarget
    refine inv_goOn hpress h.answered h.rowOrder ?_
      ((perm_exchange _ _ _).trans (perm_rowOrder h htarget)) (List.nil_append _).symm ?_ hout
    · rw [hshown]
    · exact fun _ hnode => absurd hnode List.not_mem_nil

theorem inv_apply {order : List String} {target : Nat} {node : String × Nat}
    {rest : List (String × Nat)} {now : Int} (h : Inv s)
    (hmove : s.move = .patching order target (node :: rest) false) :
    Inv { s with
      server := placed s.server node.1 node.2 now
      move := .patching order target (node :: rest) true } := by
  obtain ⟨hexpected, hperm, done, hsplit, hdone, -⟩ := h.patching _ _ _ _ hmove
  have hids : order = done.map Prod.fst ++ node.1 :: rest.map Prod.fst := by
    rw [← List.map_cons, ← List.map_append, ← hsplit, List.zipIdx_map_fst]
  have hmem : node.1 ∈ s.server.hosts.keys := hperm.subset (by simp [hids])
  have hnew : node.1 ∉ done.map Prod.fst := by
    have hnodup : order.Nodup := hperm.nodup_iff.mpr s.server.hosts.nodup
    rw [hids, List.nodup_append] at hnodup
    exact fun hin => hnodup.2.2 _ hin _ List.mem_cons_self rfl
  refine ⟨?_, ?_, ?_, by simp⟩
  · simpa only [keys_placed] using h.rowOrder
  · simpa only [keys_placed] using h.answered
  · intro order' target' rest' applied hmove'
    simp only [MovePhase.patching.injEq] at hmove'
    obtain ⟨rfl, rfl, rfl, rfl⟩ := hmove'
    refine ⟨hexpected, by simpa only [keys_placed] using hperm, done, hsplit,
      hdone.placed hmem hnew, fun _ => ?_⟩
    intro node' hnode'
    obtain rfl : node' = node := by simpa using hnode'
    rw [positionOf_placed hmem, if_pos rfl]

theorem inv_patched {order : List String} {target : Nat} {node : String × Nat}
    {rest : List (String × Nat)} (h : Inv s) (hin : s.InStep .patched)
    (hmove : s.move = .patching order target (node :: rest) true)
    (hgoOn : s.goOn order target rest = some t) : Inv t := by
  obtain ⟨hexpected, hperm, done, hsplit, hdone, happlied⟩ := h.patching _ _ _ _ hmove
  refine inv_goOn hgoOn h.answered h.rowOrder hexpected hperm ?_ (hdone.append (happlied rfl))
    (hin _ _ _ _ _ hmove)
  rw [hsplit, List.append_assoc]
  rfl

theorem inv_step (h : Inv s) (hin : s.InStep e) (hstep : s.step e = some t) : Inv t := by
  cases change_of_step hstep with
  | timer => exact inv_startPoll h
  | answer hpoll =>
    refine ⟨h.rowOrder, ?_, h.patching, h.written⟩
    rintro nodes ⟨⟩
    exact perm_listNodes s.server
  | render nodes hpoll => exact inv_renderNodes h hpoll
  | renderFails nodes hpoll => exact inv_failRender h
  | pollFails | pollEnds => exact inv_endPoll h
  | select row hrow => exact ⟨h.rowOrder, h.answered, h.patching, h.written⟩
  | press down _ hmove hpress => exact inv_press h hin hpress
  | apply now order target node rest hmove => exact inv_apply h hmove
  | patched order target node rest _ hmove hgoOn => exact inv_patched h hin hmove hgoOn

/-- While every move begins with the rows that are shown and leaves out only nodes that are in their
places, the nodes are listed as they were shown when it began, with the two rows exchanged. -/
theorem moves_persist {reg : HostRegistry} {es : List DashboardEvent}
    (hrun : Run (Guarded InStep (Fires step)) { server := reg } es s) : s.Persisted :=
  (hrun.invariant Inv (inv_init reg) fun _ _ _ hnext h => inv_step h hnext.1 hnext.2).persisted

/-- Nodes are registered, with their positions. -/
def registerNodes (nodes : List (String × Option Int)) : HostRegistry :=
  nodes.foldl (fun reg node =>
    reg.register node.1
      { backendType := none, contextWindow := none, baseUrl := none, position := node.2 }
      ⟨none⟩ 0) .empty

/-- A poll and a move. -/
def oneMove : List DashboardEvent :=
  [.timer, .answer, .render, .pollEnds, .press true, .apply 1, .patched, .apply 2, .patched,
    .apply 3, .patched]

theorem moves_persist_three : ∃ s,
    Run (Guarded InStep (Fires step))
      { server := registerNodes [("a", none), ("b", some (-1)), ("c", some (-1))] } oneMove s ∧
    s.move = .polling ∧ (listNodes s.server).map Prod.fst = ["c", "b", "a"] := by
  obtain ⟨s, hrun, hshown⟩ := run_of_shows (show (exec (guardedStep InStep step)
      { server := registerNodes [("a", none), ("b", some (-1)), ("c", some (-1))] } oneMove).map
        (fun t => (t.move, t.expected)) = some (.polling, some ["c", "b", "a"]) by decide +kernel)
  obtain ⟨hmove, hexpected⟩ := Prod.ext_iff.mp hshown
  refine ⟨s, run_of_guardedStep hrun, hmove, ?_⟩
  exact moves_persist (run_of_guardedStep hrun) (by simp [show s.move = _ from hmove]) _ hexpected

/-- Two moves; the poll that is answered before the first is rendered between them. -/
def overlapped : List DashboardEvent :=
  [.timer, .answer, .render, .pollEnds, .timer, .answer, .press true, .apply 1, .patched, .apply 2,
    .patched, .render, .pollEnds, .select 1, .press true, .apply 3, .patched, .apply 4, .patched]

/-- The old position of `a` is its place in the second move, which leaves it out. -/
theorem moves_lost_to_stale_copy : ∃ s,
    Run (Fires step) { server := registerNodes [("c", some 2), ("a", some 0), ("b", some 1)] }
      overlapped s ∧ ¬ s.Persisted := by
  obtain ⟨s, hrun, hshown⟩ := run_of_shows (show (exec step
      { server := registerNodes [("c", some 2), ("a", some 0), ("b", some 1)] } overlapped).map
        (fun t => (t.move, t.expected, (listNodes t.server).map Prod.fst)) =
      some (.polling, some ["a", "c", "b"], ["c", "a", "b"]) by decide +kernel)
  obtain ⟨hmove, hrest⟩ := Prod.ext_iff.mp hshown
  obtain ⟨hexpected, hlisted⟩ := Prod.ext_iff.mp hrest
  refine ⟨s, hrun, fun h => ?_⟩
  have hlist := h (by simp [show s.move = _ from hmove]) _ hexpected
  exact absurd (hlisted.symm.trans hlist) (by decide)

/-! ## Polls that do not overlap the moves -/

/-- What is left out for a copy that is the position is in its place. -/
theorem leavesOutPlaced_of_copied {rest : List (String × Nat)}
    (h : Copied s.server s.positions (rest.map Prod.fst)) : s.LeavesOutPlaced rest := by
  intro node hnode
  have hcopy := h node.1 (List.mem_map_of_mem (List.takeWhile_subset _ hnode))
  have hupToDate : s.positions.get? node.1 = some (some (node.2 : Int)) :=
    of_decide_eq_true (show s.upToDate node = true from List.mem_takeWhile_imp hnode)
  exact Option.some.inj (hcopy.symm.trans hupToDate)

/-- No poll fails, none begins while a move is writing, and no move while one is running. -/
def Serial (s : Dashboard) : DashboardEvent → Prop
  | .timer => ∀ order target rest applied, s.move ≠ .patching order target rest applied
  | .press _ => s.poll = .idle
  | .renderFails | .pollFails => False
  | _ => True

/-- The rows are those of the response, and the copies are the positions. -/
structure Fresh (s : Dashboard) : Prop where
  shown : s.shown = s.rowOrder
  copied : Copied s.server s.positions s.rowOrder

/-- What holds in every state of a run whose polls and moves do not overlap. -/
structure SerialInv (s : Dashboard) : Prop where
  idle : s.poll = .idle →
    (∀ order target rest applied, s.move ≠ .patching order target rest applied) → s.Fresh
  answered : ∀ nodes, s.poll = .answered nodes → nodes = listNodes s.server
  rendered : s.poll = .rendered → s.Fresh
  patching : ∀ order target rest applied, s.move = .patching order target rest applied →
    s.poll = .idle ∧ (rest.map Prod.fst).Nodup ∧ rest.map Prod.fst ⊆ s.server.hosts.keys ∧
      Copied s.server s.positions ((if applied then rest.tail else rest).map Prod.fst)

theorem serialInv_init (reg : HostRegistry) : SerialInv { server := reg } where
  idle _ _ := ⟨rfl, fun _ hmem => absurd hmem List.not_mem_nil⟩
  answered := by simp
  rendered := by simp
  patching := by simp

theorem fresh_renderNodes : Fresh (s.renderNodes (listNodes s.server)) :=
  ⟨rfl, copied_of_listed fun _ hnode => snd_of_mem_listNodes hnode⟩

/-- A move that begins with fresh copies, or goes on with them, is in step. -/
theorem inStep_of_serial (h : SerialInv s) (hserial : s.Serial e) (hstep : s.step e = some t) :
    s.InStep e := by
  cases change_of_step hstep with
  | press down _ hmove _ =>
    intro target _
    have hfresh := h.idle hserial (by simp [hmove])
    refine ⟨hfresh.shown, leavesOutPlaced_of_copied ?_⟩
    rw [List.zipIdx_map_fst]
    exact fun hostId hmem => hfresh.copied hostId ((perm_exchange _ _ _).subset hmem)
  | patched order target node rest _ hmove _ =>
    intro order' target' node' rest' applied hmove'
    cases hmove.symm.trans hmove'
    exact leavesOutPlaced_of_copied (h.patching _ _ _ _ hmove).2.2.2
  | timer | answer | render | renderFails | pollFails | pollEnds | select | apply => trivial

theorem serialInv_goOn {order : List String} {target : Nat} {rest : List (String × Nat)}
    (h : s.goOn order target rest = some t) (hpoll : s.poll = .idle)
    (hnodup : (rest.map Prod.fst).Nodup) (hkeys : rest.map Prod.fst ⊆ s.server.hosts.keys)
    (hcopied : Copied s.server s.positions (rest.map Prod.fst)) : SerialInv t := by
  unfold goOn at h
  split at h
  · cases h
    simp only [endLoop, hpoll]
    exact ⟨by simp, by simp, by simp, by simp⟩
  · next node rest' hrest =>
    obtain ⟨-, rfl⟩ := Option.ite_some_none_eq_some.mp h
    have hsub : ((node :: rest').map Prod.fst).Sublist (rest.map Prod.fst) := by
      rw [← hrest]
      exact (List.dropWhile_sublist _).map _
    refine ⟨by simp, by simp [hpoll], by simp [hpoll], ?_⟩
    intro order' target' rest'' applied hmove
    simp only [MovePhase.patching.injEq] at hmove
    obtain ⟨rfl, rfl, rfl, rfl⟩ := hmove
    exact ⟨hpoll, hnodup.sublist hsub, fun _ hmem => hkeys (hsub.subset hmem),
      fun hostId hmem => hcopied hostId (hsub.subset hmem)⟩

/-- A poll that is running is not running while a move writes. -/
theorem SerialInv.not_patching (h : SerialInv s) (hpoll : s.poll ≠ .idle) :
    ∀ order target rest applied, s.move ≠ .patching order target rest applied :=
  fun _ _ _ _ hmove => hpoll (h.patching _ _ _ _ hmove).1

theorem serialInv_press {down : Bool} (hinv : Inv s) (h : SerialInv s) (hpoll : s.poll = .idle)
    (hmove : s.move = .idle) (hpress : s.press down = some t) : SerialInv t := by
  have hfresh := h.idle hpoll (by simp [hmove])
  unfold press at hpress
  split at hpress
  · cases hpress
    exact h
  · next target htarget =>
    have hexchange := perm_exchange s.rowOrder s.cursor target
    have hperm := hexchange.trans (perm_rowOrder hinv htarget)
    refine serialInv_goOn hpress hpoll ?_ ?_ ?_
    · rw [List.zipIdx_map_fst]
      exact hperm.nodup_iff.mpr s.server.hosts.nodup
    · rw [List.zipIdx_map_fst]
      exact hperm.subset
    · rw [List.zipIdx_map_fst]
      exact fun hostId hmem => hfresh.copied hostId (hexchange.subset hmem)

theorem serialInv_apply {order : List String} {target : Nat} {node : String × Nat}
    {rest : List (String × Nat)} {now : Int} (h : SerialInv s)
    (hmove : s.move = .patching order target (node :: rest) false) :
    SerialInv { s with
      server := placed s.server node.1 node.2 now
      move := .patching order target (node :: rest) true } := by
  obtain ⟨hpoll, hnodup, hkeys, hcopied⟩ := h.patching _ _ _ _ hmove
  refine ⟨by simp, by simp [hpoll], by simp [hpoll], ?_⟩
  intro order' target' rest' applied hmove'
  simp only [MovePhase.patching.injEq] at hmove'
  obtain ⟨rfl, rfl, rfl, rfl⟩ := hmove'
  refine ⟨hpoll, hnodup, by simpa only [keys_placed] using hkeys, ?_⟩
  rw [List.map_cons, List.nodup_cons] at hnodup
  refine Copied.placed (hkeys List.mem_cons_self) (fun hostId hmem => ?_) hnodup.1
  exact hcopied hostId (List.mem_cons_of_mem _ hmem)

theorem serialInv_patched {order : List String} {target : Nat} {node : String × Nat}
    {rest : List (String × Nat)} (h : SerialInv s)
    (hmove : s.move = .patching order target (node :: rest) true)
    (hgoOn : s.goOn order target rest = some t) : SerialInv t := by
  obtain ⟨hpoll, hnodup, hkeys, hcopied⟩ := h.patching _ _ _ _ hmove
  rw [List.map_cons] at hnodup hkeys
  exact serialInv_goOn hgoOn hpoll hnodup.tail
    (fun _ hmem => hkeys (List.mem_cons_of_mem _ hmem)) hcopied

theorem serialInv_endPoll (h : SerialInv s) (hpoll : s.poll = .rendered) :
    SerialInv s.endPoll := by
  have hfresh := h.rendered hpoll
  unfold endPoll
  split
  · exact ⟨fun _ _ => ⟨hfresh.shown, hfresh.copied⟩, by simp, by simp, by simp⟩
  · refine ⟨fun _ _ => ⟨hfresh.shown, hfresh.copied⟩, by simp, by simp, ?_⟩
    exact fun _ _ _ _ hmove => absurd hmove (h.not_patching (by simp [hpoll]) _ _ _ _)

theorem serialInv_step (hinv : Inv s) (h : SerialInv s) (hserial : s.Serial e)
    (hstep : s.step e = some t) : SerialInv t := by
  cases change_of_step hstep with
  | timer =>
    unfold startPoll
    split
    · refine ⟨by simp, by simp, by simp, ?_⟩
      exact fun order target rest applied hmove => absurd hmove (hserial order target rest applied)
    · exact h
  | answer hpoll =>
    refine ⟨by simp, by simp, by simp, ?_⟩
    exact fun _ _ _ _ hmove => absurd hmove (h.not_patching (by simp [hpoll]) _ _ _ _)
  | render nodes hpoll =>
    obtain rfl := h.answered nodes hpoll
    refine ⟨by simp [renderNodes], by simp [renderNodes], fun _ => fresh_renderNodes, ?_⟩
    exact fun _ _ _ _ hmove => absurd hmove (h.not_patching (by simp [hpoll]) _ _ _ _)
  | renderFails | pollFails => exact hserial.elim
  | pollEnds hpoll => exact serialInv_endPoll h hpoll
  | select row hrow =>
    refine ⟨fun hpoll hidle => ?_, h.answered, fun hpoll => ?_, h.patching⟩
    · exact ⟨(h.idle hpoll hidle).shown, (h.idle hpoll hidle).copied⟩
    · exact ⟨(h.rendered hpoll).shown, (h.rendered hpoll).copied⟩
  | press down _ hmove hpress => exact serialInv_press hinv h hserial hmove hpress
  | apply now order target node rest hmove => exact serialInv_apply h hmove
  | patched order target node rest _ hmove hgoOn => exact serialInv_patched h hmove hgoOn

/-- A run whose polls and moves do not overlap is in step. -/
theorem guarded_of_serial {reg : HostRegistry} {es : List DashboardEvent}
    (hrun : Run (Guarded Serial (Fires step)) { server := reg } es s) :
    Run (Guarded InStep (Fires step)) { server := reg } es s ∧ Inv s ∧ SerialInv s := by
  induction hrun with
  | nil => exact ⟨.nil, inv_init reg, serialInv_init reg⟩
  | snoc _ hnext ih =>
    obtain ⟨hrun, hinv, hserial⟩ := ih
    have hin := inStep_of_serial hserial hnext.1 hnext.2
    exact ⟨.snoc hrun ⟨hin, hnext.2⟩, inv_step hinv hin hnext.2,
      serialInv_step hinv hserial hnext.1 hnext.2⟩

end Dashboard

end LlmHomeLab
