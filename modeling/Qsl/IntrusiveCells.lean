import Qsl.IntrusiveStore
import Qsl.KeyIndex

namespace Qsl.IntrusiveStore

open List Function

/-- A resting order with the node and the order slot it takes. -/
structure Cell where
  node : Nat
  slot : Nat
  order : Order
  deriving DecidableEq, Repr

namespace Cell

/-- The cell as the level's node list has it. -/
def link (cell : Cell) : Nat × Nat := (cell.node, cell.slot)

/-- The index entry it is owed. -/
def entry (cell : Cell) : OrderId × Locator :=
  (cell.order.id, ⟨cell.order.side, cell.order.price, cell.node⟩)

end Cell

/-- The level's node list runs through the given cells. -/
def Pools.Holds (pools : Pools) (level : Level) (cells : List Cell) : Prop :=
  LinkedQueue.Holds pools.nodes.slots level (cells.map Cell.link)

/-- Nothing is leaked or shared: the pools hold the orders of the given cells and
their nodes, every other slot is free, and the index lists exactly these orders. -/
structure Accounts (capacity : Nat) (pools : Pools) (cells : List Cell) : Prop where
  nodeCapacity : pools.nodes.capacity = capacity
  orderCapacity : pools.orders.capacity = capacity
  nodes : pools.nodes.Uses (cells.map Cell.node)
  orders : pools.orders.Uses (cells.map Cell.slot)
  index : pools.index.Indexes (cells.map Cell.entry)
  held : ∀ cell ∈ cells, pools.orders.slots cell.slot = some cell.order

section Accounts

variable {capacity : Nat} {pools : Pools} {cells others : List Cell} {cell : Cell}

theorem Accounts.perm (accounts : Accounts capacity pools cells) (same : cells.Perm others) :
    Accounts capacity pools others where
  nodeCapacity := accounts.nodeCapacity
  orderCapacity := accounts.orderCapacity
  nodes := accounts.nodes.perm (same.map _)
  orders := accounts.orders.perm (same.map _)
  index := accounts.index.perm (same.map _)
  held := fun cell member => accounts.held cell (same.mem_iff.mpr member)

theorem Accounts.length_le (accounts : Accounts capacity pools cells) :
    cells.length ≤ capacity := by
  have total := accounts.nodes.available_add
  rw [accounts.nodeCapacity, length_map] at total
  omega

/-- Cells share no slot with the first one. -/
theorem Accounts.apart (accounts : Accounts capacity pools (cell :: cells)) :
    ∀ other ∈ cells, other.node ≠ cell.node ∧ other.slot ≠ cell.slot := by
  have nodes := accounts.nodes.nodup
  have slots := accounts.orders.nodup
  rw [map_cons, nodup_cons] at nodes slots
  intro other member
  refine ⟨?_, ?_⟩
  · intro same
    exact nodes.1 (same ▸ mem_map_of_mem member)
  · intro same
    exact slots.1 (same ▸ mem_map_of_mem member)

/-- Only the links of the level's own nodes matter to it. -/
theorem Pools.Holds.congr {pools' : Pools} {level : Level} (holds : pools.Holds level cells)
    (same : ∀ cell ∈ cells, pools'.nodes.slots cell.node = pools.nodes.slots cell.node) :
    pools'.Holds level cells := by
  apply LinkedQueue.Holds.congr holds
  intro link member
  obtain ⟨cell, inside, rfl⟩ := mem_map.mp member
  exact same cell inside

theorem links_mem {address : Nat} :
    address ∈ (cells.map Cell.link).map Prod.fst ↔ address ∈ cells.map Cell.node := by
  rw [map_map]
  rfl

section

variable {level : Level} {front back : List Cell}
  (holds : pools.Holds level (front ++ cell :: back))

include holds

theorem Pools.Holds.split :
    LinkedQueue.Holds pools.nodes.slots level
      (front.map Cell.link ++ (cell.node, cell.slot) :: back.map Cell.link) := by
  rw [Pools.Holds, map_append, map_cons] at holds
  exact holds

theorem Pools.Holds.node :
    ∃ prev next, pools.nodes.slots cell.node = some ⟨cell.slot, prev, next⟩ :=
  ⟨_, _, holds.split.cell⟩

theorem Pools.Holds.orderAt (accounts : Accounts capacity pools (front ++ cell :: back ++ others)) :
    pools.orderAt cell.node = some cell.order := by
  obtain ⟨prev, next, placed⟩ := holds.node
  rw [Pools.orderAt, placed]
  apply accounts.held
  exact mem_append_left _ (mem_append_right _ mem_cons_self)

end

theorem Accounts.levelOrders (accounts : Accounts capacity pools others)
    (inside : cells.Sublist others) {level : Level} (holds : pools.Holds level cells) :
    pools.levelOrders level = cells.map Cell.order := by
  have walked : LinkedQueue.walk pools.nodes.slots pools.nodes.capacity level.head =
      cells.map Cell.link := by
    apply LinkedQueue.Holds.walk_eq holds
    rw [length_map, accounts.nodeCapacity]
    exact inside.length_le.trans accounts.length_le
  have values : ∀ cell ∈ cells, pools.orders.slots cell.link.2 = some cell.order :=
    fun cell member => accounts.held cell (inside.subset member)
  rw [Pools.levelOrders, walked, filterMap_map, ← filterMap_eq_map]
  exact filterMap_congr values

end Accounts

theorem split_perm (front back others : List Cell) (cell : Cell) :
    (front ++ cell :: back ++ others).Perm (cell :: (front ++ back ++ others)) := by
  simp only [append_assoc, cons_append]
  exact perm_middle

section SetQuantity

variable {capacity : Nat} {pools : Pools} {level : Level} {front back others : List Cell}
variable {cell : Cell}

def Cell.setQuantity (cell : Cell) (quantity : Quantity) : Cell :=
  { cell with order := { cell.order with quantity := quantity } }

/-- Writing a quantity through a node changes that cell's order and nothing else. -/
theorem Accounts.setQuantity (holds : pools.Holds level (front ++ cell :: back))
    (accounts : Accounts capacity pools (front ++ cell :: back ++ others)) (quantity : Quantity) :
    (pools.setQuantity cell.node quantity).Holds level
        (front ++ cell.setQuantity quantity :: back) ∧
      Accounts capacity (pools.setQuantity cell.node quantity)
        (front ++ cell.setQuantity quantity :: back ++ others) ∧
      (pools.setQuantity cell.node quantity).nodes = pools.nodes := by
  obtain ⟨prev, next, placed⟩ := holds.node
  have moved := accounts.perm (split_perm front back others cell)
  have written : pools.setQuantity cell.node quantity = { pools with
      orders := pools.orders.write cell.slot
        (fun order => { order with quantity := quantity }) } := by
    rw [Pools.setQuantity, placed]
  rw [written]
  refine ⟨?_, ?_, rfl⟩
  · rw [Pools.Holds, map_append, map_cons] at holds ⊢
    exact holds
  · apply Accounts.perm _ (split_perm front back others (cell.setQuantity quantity)).symm
    refine ⟨moved.nodeCapacity, moved.orderCapacity, moved.nodes, moved.orders.write _ _,
      moved.index, ?_⟩
    intro other member
    rcases mem_cons.mp member with rfl | later
    · have held := moved.held cell mem_cons_self
      change Function.update pools.orders.slots cell.slot _ cell.slot = _
      rw [update_self, held]
      rfl
    · change Function.update pools.orders.slots cell.slot _ other.slot = _
      rw [update_of_ne (moved.apart other later).2]
      exact moved.held other (mem_cons_of_mem _ later)

end SetQuantity

section Detach

variable {capacity : Nat} {pools : Pools} {level : Level} {front back others : List Cell}
variable {cell : Cell}

/-- What a fill that uses up its maker and an erase through the index have in common. -/
def Pools.detach (pools : Pools) (id : OrderId) (level : Level) (node : Nat) : Pools × Level :=
  let (unlinked, level) := { pools with index := pools.index.erase id }.unlinkNode level node
  (unlinked.destroyNode node, level)

/-- Detaching a cell gives both of its slots back and keeps the rest. -/
theorem Accounts.detach (holds : pools.Holds level (front ++ cell :: back))
    (accounts : Accounts capacity pools (front ++ cell :: back ++ others)) :
    let detached := pools.detach cell.order.id level cell.node
    detached.1.Holds detached.2 (front ++ back) ∧
      Accounts capacity detached.1 (front ++ back ++ others) ∧
      ∀ other ∈ others, detached.1.nodes.slots other.node = pools.nodes.slots other.node := by
  have moved := accounts.perm (split_perm front back others cell)
  have apart := moved.apart
  have outside : ∀ other ∈ others, other.node ∉ (front ++ back).map Cell.node := by
    have distinct := moved.nodes.nodup
    rw [map_cons, nodup_cons, map_append, nodup_append] at distinct
    intro other member inside
    exact distinct.2.2.2 other.node inside other.node (mem_map_of_mem member) rfl
  let slots := (LinkedQueue.unlink pools.nodes.slots level cell.node).1
  have frame : ∀ address, address ∉ (front ++ back).map Cell.node →
      slots address = pools.nodes.slots address := by
    intro address absent
    apply holds.split.unlink_frame
    rwa [← map_append, links_mem]
  have own : cell.node ∉ (front ++ back).map Cell.node := by
    intro inside
    obtain ⟨other, member, same⟩ := mem_map.mp inside
    exact (apart other (mem_append_left _ member)).1 same
  have placed : slots cell.node = some _ := (frame _ own).trans holds.split.cell
  let nodes : SlotPool (LinkedQueue.Node Nat) := { pools.nodes with slots := slots }
  have nodesUsed : nodes.Uses (cell.node :: (front ++ back ++ others).map Cell.node) := moved.nodes
  obtain ⟨nodesFreed, nodesLeft⟩ := nodesUsed.release (congrArg Option.isSome placed)
  obtain ⟨ordersFreed, ordersLeft⟩ := SlotPool.Uses.release moved.orders
    (by rw [moved.held cell mem_cons_self]; rfl)
  have after : pools.detach cell.order.id level cell.node =
      (⟨{ pools.orders with
          slots := Function.update pools.orders.slots cell.slot none
          free := cell.slot :: pools.orders.free },
        { nodes with
          slots := Function.update slots cell.node none, free := cell.node :: pools.nodes.free },
        pools.index.erase cell.order.id⟩,
        (LinkedQueue.unlink pools.nodes.slots level cell.node).2) := by
    change (Pools.destroyNode ⟨pools.orders, nodes, pools.index.erase cell.order.id⟩ cell.node,
      _) = _
    rw [Pools.destroyNode]
    simp only [nodes, placed]
    rw [ordersFreed]
    exact congrArg (fun freed : SlotPool _ × Bool => (Pools.mk _ freed.1 _, _)) nodesFreed
  rw [after]
  refine ⟨?_, ⟨moved.nodeCapacity, moved.orderCapacity, nodesLeft, ordersLeft, ?_, ?_⟩, ?_⟩
  · have unlinked := holds.split.unlink
    rw [← map_append] at unlinked
    apply unlinked.congr
    intro link member
    obtain ⟨other, inside, rfl⟩ := mem_map.mp member
    exact update_of_ne (apart other (mem_append_left _ inside)).1 _ _
  · exact OrderedMap.Indexes.erase_head moved.index
  · intro other member
    change Function.update pools.orders.slots cell.slot none other.slot = _
    rw [update_of_ne (apart other member).2]
    exact moved.held other (mem_cons_of_mem _ member)
  · intro other member
    change Function.update slots cell.node none other.node = _
    rw [update_of_ne (apart other (mem_append_right _ member)).1]
    exact frame _ (outside other member)

end Detach

section Attach

variable {capacity : Nat} {pools : Pools} {level : Level} {cells others : List Cell}

/-- The pools with a node of a level's list queued and listed. -/
def Pools.attach (pools : Pools) (level : Level) (order : Order) (node : Nat) : Pools × Level :=
  let (appended, level) := pools.appendNode level node
  ({ appended with index := appended.index.insert order.id ⟨order.side, order.price, node⟩ }, level)

/-- With a slot free in the pools, both acquisitions succeed and the new cell is
queued last at its level. -/
theorem Accounts.attach (holds : pools.Holds level cells)
    (accounts : Accounts capacity pools (cells ++ others)) {order : Order}
    (fresh : order.id ∉ (cells ++ others).map (fun cell => cell.order.id))
    (room : (cells ++ others).length < capacity) :
    ∃ slot node orders nodes, pools.orders.tryAcquire order = (orders, some slot) ∧
      pools.nodes.tryAcquire ⟨slot, none, none⟩ = (nodes, some node) ∧
      let attached := Pools.attach ⟨orders, nodes, pools.index⟩ level order node
      attached.1.Holds attached.2 (cells ++ [⟨node, slot, order⟩]) ∧
        Accounts capacity attached.1 (cells ++ [⟨node, slot, order⟩] ++ others) ∧
        ∀ other ∈ others, attached.1.nodes.slots other.node = pools.nodes.slots other.node := by
  have nodeRoom : pools.nodes.available ≠ 0 := by
    have total := accounts.nodes.available_add
    rw [accounts.nodeCapacity, length_map] at total
    omega
  have orderRoom : pools.orders.available ≠ 0 := by
    have total := accounts.orders.available_add
    rw [accounts.orderCapacity, length_map] at total
    omega
  obtain ⟨slot, freeOrders, ordersTaken, slotFresh, ordersUsed⟩ :=
    accounts.orders.acquire orderRoom order
  obtain ⟨node, freeNodes, nodesTaken, nodeFresh, nodesUsed⟩ :=
    accounts.nodes.acquire nodeRoom ⟨slot, none, none⟩
  have distinct := accounts.nodes.nodup
  rw [map_append, nodup_append] at distinct
  have apart : ∀ cell ∈ cells ++ others, cell.node ≠ node := by
    intro cell member same
    exact nodeFresh (same ▸ mem_map_of_mem member)
  let slots := Function.update pools.nodes.slots node (some ⟨slot, none, none⟩)
  have kept : LinkedQueue.Holds slots level (cells.map Cell.link) := by
    apply LinkedQueue.Holds.congr holds
    intro link member
    obtain ⟨cell, inside, rfl⟩ := mem_map.mp member
    exact update_of_ne (apart cell (mem_append_left _ inside)) _ _
  have outside : node ∉ (cells.map Cell.link).map Prod.fst := by
    rw [links_mem]
    intro member
    exact nodeFresh (by rw [map_append]; exact mem_append_left _ member)
  have moved : ((⟨node, slot, order⟩ : Cell) :: (cells ++ others)).Perm
      (cells ++ [⟨node, slot, order⟩] ++ others) := by
    rw [append_assoc]
    exact perm_middle.symm
  refine ⟨slot, node, _, _, ordersTaken, nodesTaken, ?_, ?_, ?_⟩
  · have queued := kept.append (update_self node _ _) outside
    rw [Pools.Holds, map_append]
    exact queued
  · apply Accounts.perm _ moved
    refine ⟨accounts.nodeCapacity, accounts.orderCapacity, nodesUsed, ordersUsed, ?_, ?_⟩
    · apply accounts.index.insert_fresh
      rw [map_map]
      exact fresh
    · intro cell member
      rcases mem_cons.mp member with rfl | old
      · exact update_self _ _ _
      · have differ : cell.slot ≠ slot := fun same => slotFresh (same ▸ mem_map_of_mem old)
        change Function.update pools.orders.slots slot _ cell.slot = _
        rw [update_of_ne differ]
        exact accounts.held cell old
  · intro other member
    have differ := apart other (mem_append_right _ member)
    have absent : other.node ∉ (cells.map Cell.link).map Prod.fst := by
      rw [links_mem]
      intro inside
      exact distinct.2.2 other.node inside other.node (mem_map_of_mem member) rfl
    exact (kept.append_frame differ absent).trans (update_of_ne differ _ _)

end Attach

end Qsl.IntrusiveStore
