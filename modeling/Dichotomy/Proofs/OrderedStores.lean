import Dichotomy.Proofs.FlowchartAnswers
import Dichotomy.Proofs.Reduced

/-!
# Ordered stores

In an ordered store each node stands at the position that is its number, behind the nodes that are
its sides.  Building only ever adds nodes, whether it succeeds or not, and keeps a store ordered.
The diagram that it yields is made of nodes of its own, none of which stands at two places of the
diagram: the two halves of a table are built one after the other, so the numbers of the second one
begin where those of the first one end, whichever of the two is left of a decision.

## Main statements

- `Store.IsOrdered.of_extends`: a store was ordered at every moment if it is in the end.
- `Building.Ends`: what a computation leaves behind and what it yields.
- `ends_build_of`: induction over building.
- `ends_build`: what building leaves behind.
-/

namespace Dichotomy

/-- The two sides of a branch. -/
def Diagram.children {ι : Type} : Diagram ι → List (Diagram ι)
  | leaf _ _ => []
  | branch _ _ high low => [high, low]

/-! ## Nodes in the order of their making -/

/-- Each node stands at its number, and behind its children. -/
structure Store.IsOrdered (s : Store) : Prop where
  mark : ∀ (number : Nat) (node : Node), s.nodes[number]? = some node → node.mark = number
  children : ∀ (number : Nat) (node : Node), s.nodes[number]? = some node →
    ∀ child ∈ node.children, ∃ older < number, s.nodes[older]? = some child

namespace Node

/-- The numbers of a diagram, which begin at `first`, name its positions. -/
structure IsFresh (first : Nat) (node : Node) : Prop where
  nodup : node.marks.Nodup
  le : ∀ mark ∈ node.marks, (first : Int) ≤ mark

variable {s s' : Store} {node high low : Node} {first : Nat}

/-- The numbers of a stored diagram are those of nodes. -/
theorem IsStored.mark_lt (h : node.IsStored s) {mark : Int} (hmark : mark ∈ node.marks) :
    0 ≤ mark ∧ mark < s.size := by
  rw [Diagram.marks_eq_map_parts] at hmark
  obtain ⟨part, hpart, rfl⟩ := List.mem_map.mp hmark
  obtain ⟨hnonneg, hget⟩ := h part hpart
  obtain ⟨hlt, -⟩ := Array.getElem?_eq_some_iff.mp hget
  rw [Store.size]
  omega

theorem IsStored.exists_older (h : node.IsStored s) :
    ∃ older < s.size, s.nodes[older]? = some node := by
  have hget := (h node node.self_mem_parts).2
  exact ⟨_, (Array.getElem?_eq_some_iff.mp hget).1, hget⟩

theorem IsFresh.mono {later : Nat} (h : node.IsFresh later) (hle : first ≤ later) :
    node.IsFresh first where
  nodup := h.nodup
  le mark hmark := by
    have := h.le mark hmark
    omega

/-- Sides that were made one after the other have no number in common, nor has a branch made
    after them. -/
theorem isFresh_addBranch (hhigh : high.IsFresh first) (hhighStored : high.IsStored s)
    (hle : first ≤ s.size) (hlow : low.IsFresh s.size) (hlowStored : low.IsStored s')
    (hgrown : s.size ≤ s'.size) (var : Int) : (s'.addBranch var high low).1.IsFresh first := by
  have hroot : ∀ mark ∈ high.marks ++ low.marks, mark < s'.size := by
    intro mark hmark
    rcases List.mem_append.mp hmark with hmark | hmark
    · have := (hhighStored.mark_lt hmark).2
      omega
    · exact (hlowStored.mark_lt hmark).2
  constructor
  · refine List.nodup_cons.mpr ⟨fun hmem => ?_, hhigh.nodup.append hlow.nodup ?_⟩
    · exact (hroot _ hmem).false
    · intro mark hmark hmark'
      have hlt := (hhighStored.mark_lt hmark).2
      have hge := hlow.le mark hmark'
      omega
  · intro mark hmark
    rcases List.mem_cons.mp hmark with rfl | hmark
    · exact Int.ofNat_le.mpr (hle.trans hgrown)
    · rcases List.mem_append.mp hmark with hmark | hmark
      · exact hhigh.le mark hmark
      · have := hlow.le mark hmark
        omega

end Node

namespace Store

variable {s s' : Store}

theorem Extends.size_le (h : s.Extends s') : s.size ≤ s'.size := by
  by_contra hle
  have hlt : s'.size < s.nodes.size := not_le.mp hle
  exact (Array.getElem?_eq_some_iff.mp (h _ _ (Array.getElem?_eq_getElem hlt))).1.false

theorem isOrdered_empty : Store.empty.IsOrdered where
  mark number node h := by simp [empty] at h
  children number node h := by simp [empty] at h

namespace IsOrdered

/-- A store from which an ordered one has grown is ordered. -/
theorem of_extends (h : s'.IsOrdered) (hgrown : s.Extends s') : s.IsOrdered where
  mark number node hget := h.mark number node (hgrown number node hget)
  children number node hget child hchild := by
    obtain ⟨older, holder, hnode⟩ := h.children number node (hgrown number node hget) child hchild
    have hlt : older < s.nodes.size :=
      holder.trans (Array.getElem?_eq_some_iff.mp hget).1
    -- What stands there in the older store still stands there.
    have hsame := hgrown older _ (Array.getElem?_eq_getElem hlt)
    exact ⟨older, holder, by rw [Array.getElem?_eq_getElem hlt, ← hsame, hnode]⟩

/-- The nodes of an ordered store are diagrams over nodes of the store. -/
theorem isStored (h : s.IsOrdered) {number : Nat} {node : Node}
    (hget : s.nodes[number]? = some node) : node.IsStored s := by
  induction node generalizing number with
  | leaf mark cell =>
    intro part hpart
    obtain rfl := List.mem_singleton.mp hpart
    rw [h.mark number _ hget]
    exact ⟨Int.natCast_nonneg _, hget⟩
  | branch mark var high low ihHigh ihLow =>
    obtain ⟨_, -, hhigh⟩ := h.children number _ hget high List.mem_cons_self
    obtain ⟨_, -, hlow⟩ :=
      h.children number _ hget low (List.mem_cons_of_mem _ List.mem_cons_self)
    intro part hpart
    rcases List.mem_cons.mp hpart with rfl | hpart
    · rw [h.mark number _ hget]
      exact ⟨Int.natCast_nonneg _, hget⟩
    · rcases List.mem_append.mp hpart with hpart | hpart
      · exact ihHigh hhigh part hpart
      · exact ihLow hlow part hpart

/-- A node is added in order if it has the next number and its children are nodes. -/
theorem push (h : s.IsOrdered) {node : Node} (hmark : node.mark = s.size)
    (hchildren : ∀ child ∈ node.children, ∃ older < s.size, s.nodes[older]? = some child) :
    IsOrdered ⟨s.nodes.push node⟩ := by
  have hcases : ∀ (number : Nat) (other : Node), (s.nodes.push node)[number]? = some other →
      s.nodes[number]? = some other ∨ number = s.size ∧ other = node := by
    intro number other hget
    rw [Array.getElem?_push] at hget
    split at hget
    next hnumber => exact .inr ⟨hnumber, (Option.some.inj hget).symm⟩
    next => exact .inl hget
  have hgrown := s.extends_push node
  constructor
  · intro number other hget
    rcases hcases number other hget with hget | ⟨rfl, rfl⟩
    · exact h.mark number other hget
    · exact hmark
  · intro number other hget child hchild
    rcases hcases number other hget with hget | ⟨rfl, rfl⟩
    · obtain ⟨older, hlt, hnode⟩ := h.children number other hget child hchild
      exact ⟨older, hlt, hgrown _ _ hnode⟩
    · obtain ⟨older, hlt, hnode⟩ := hchildren child hchild
      exact ⟨older, hlt, hgrown _ _ hnode⟩

theorem addLeaf (h : s.IsOrdered) (cell : Cell) : (s.addLeaf cell).2.IsOrdered :=
  h.push rfl fun _ hchild => nomatch hchild

theorem addBranch (h : s.IsOrdered) (var : Int) {high low : Node} (hhigh : high.IsStored s)
    (hlow : low.IsStored s) : (s.addBranch var high low).2.IsOrdered := by
  refine h.push rfl fun child hchild => ?_
  rcases List.mem_cons.mp hchild with rfl | hchild
  · exact hhigh.exists_older
  · obtain rfl := List.mem_singleton.mp hchild
    exact hlow.exists_older

end IsOrdered

end Store

/-! ## Computations that make nodes -/

/-- From a store on, a computation leaves a store that is as it should always be, and what it
    yields, if it does not stop with a fault, fits the store that it leaves. -/
structure Building.Ends {α : Type} (x : Building α) (s : Store) (always : Store → Prop)
    (yields : α → Store → Prop) : Prop where
  always : always (x.run.run s).2
  yields : ∀ result, (x.run.run s).1 = .ok result → yields result (x.run.run s).2

namespace Building

variable {α β : Type} {s : Store} {always always' : Store → Prop}
  {yields yields' : α → Store → Prop}

theorem ends_throw (fault : Fault) (h : always s) :
    (throw fault : Building α).Ends s always yields :=
  ⟨h, fun _ hresult => nomatch hresult⟩

theorem ends_make {operation : Store → Node × Store} {yields : Node → Store → Prop}
    (halways : always (operation s).2) (hyields : yields (operation s).1 (operation s).2) :
    (make operation).Ends s always yields := by
  refine ⟨halways, fun node h => ?_⟩
  obtain rfl := Except.ok.inj h
  exact hyields

theorem Ends.mono {x : Building α} (h : x.Ends s always yields)
    (halways : ∀ s', always s' → always' s')
    (hyields : ∀ result s', always s' → yields result s' → yields' result s') :
    x.Ends s always' yields' :=
  ⟨halways _ h.always, fun result hresult => hyields _ _ h.always (h.yields result hresult)⟩

/-- A fault passes over what would come next, but the nodes made before it stay. -/
theorem bind_error {x : Building α} {f : α → Building β} {s s' : Store} {fault : Fault}
    (h : x.run.run s = (.error fault, s')) : (x >>= f).run.run s = (.error fault, s') := by
  rw [ExceptT.run_bind, StateT.run_bind, h]
  rfl

theorem Ends.bind {x : Building α} {f : α → Building β} {next : β → Store → Prop}
    (h : x.Ends s always yields)
    (hnext : ∀ result s', always s' → yields result s' → (f result).Ends s' always next) :
    (x >>= f).Ends s always next := by
  have halways := h.always
  have hyields := h.yields
  cases hrun : x.run.run s with
  | mk outcome s' =>
    rw [hrun] at halways hyields
    cases outcome with
    | error fault =>
      constructor
      · rw [bind_error hrun]
        exact halways
      · intro result hresult
        rw [bind_error hrun] at hresult
        cases hresult
    | ok result =>
      have hrest := hnext result s' halways (hyields result rfl)
      constructor
      · rw [bind_eq hrun]
        exact hrest.always
      · rw [bind_eq hrun]
        exact hrest.yields

end Building

/-! ## What building leaves behind -/

namespace Store

variable {s : Store} {high low : Node}

/-- A decision makes one node or none. -/
theorem extends_addReduced (s : Store) (var : Int) (high low : Node) :
    s.Extends (s.addReduced var high low).2 := by
  rw [addReduced]
  cases Reduction.of high low with
  | keepHigh => exact .refl s
  | keepLow => exact .refl s
  | split => exact s.extends_push _

/-- A decision over stored sides is stored: it is one of them or a new branch. -/
theorem isStored_addReduced (var : Int) (hhigh : high.IsStored s) (hlow : low.IsStored s) :
    (s.addReduced var high low).1.IsStored (s.addReduced var high low).2 := by
  rw [addReduced]
  cases Reduction.of high low with
  | keepHigh => exact hhigh
  | keepLow => exact hlow
  | split => exact isStored_addBranch var hhigh hlow

theorem IsOrdered.addReduced (h : s.IsOrdered) (var : Int) (hhigh : high.IsStored s)
    (hlow : low.IsStored s) : (s.addReduced var high low).2.IsOrdered := by
  rw [Store.addReduced]
  cases Reduction.of high low with
  | keepHigh => exact h
  | keepLow => exact h
  | split => exact h.addBranch var hhigh hlow

/-- Whichever side is left of a decision, its numbers name its positions. -/
theorem isFresh_addReduced {s' : Store} {first : Nat} (hhigh : high.IsFresh first)
    (hhighStored : high.IsStored s) (hle : first ≤ s.size) (hlow : low.IsFresh s.size)
    (hlowStored : low.IsStored s') (hgrown : s.size ≤ s'.size) (var : Int) :
    (s'.addReduced var high low).1.IsFresh first := by
  rw [Store.addReduced]
  cases Reduction.of high low with
  | keepHigh => exact hhigh
  | keepLow => exact hlow.mono hle
  | split => exact Node.isFresh_addBranch hhigh hhighStored hle hlow hlowStored hgrown var

end Store

/-- **Induction over building**: what holds of the store stays true if leaves and decisions keep it,
    and what is yielded fits the cells if leaves fit, and decisions whose sides fit their halves. -/
theorem ends_build_of (always : Store → Prop) (yields : Store → List Cell → Node → Store → Prop)
    (hleaf : ∀ s cell, always s →
      always (s.addLeaf cell).2 ∧ yields s [cell] (s.addLeaf cell).1 (s.addLeaf cell).2)
    (hdecision : ∀ s s₁ s₂ firsts seconds var high low, always s → always s₁ → always s₂ →
      yields s firsts high s₁ → yields s₁ seconds low s₂ →
      always (s₂.addReduced var high low).2 ∧
        yields s (firsts ++ seconds) (s₂.addReduced var high low).1
          (s₂.addReduced var high low).2)
    (order : List Int) (level : Int) (cells : List Cell) {s : Store} (h : always s) :
    (build order level cells).Ends s always (yields s cells) := by
  induction hlen : cells.length using Nat.strong_induction_on generalizing level cells s with
  | _ length ih =>
  unfold build
  split
  next fault _ => exact Building.ends_throw fault h
  next =>
    split
    next htwo =>
      refine (ih _ (by rw [List.length_take]; omega) _ _ h rfl).bind fun high s₁ h₁ hhigh => ?_
      -- The second half is built in the store that the first one leaves.
      refine (ih _ (by rw [List.length_drop]; omega) _ _ h₁ rfl).bind fun low s₂ h₂ hlow => ?_
      split
      next var _ =>
        obtain ⟨halways, hyields⟩ := hdecision s s₁ s₂ _ _ var high low h h₁ h₂ hhigh hlow
        rw [List.take_append_drop] at hyields
        exact Building.ends_make halways hyields
      next => exact Building.ends_throw _ h₂
    next =>
      split
      next cell _ _ =>
        obtain ⟨halways, hyields⟩ := hleaf s cell h
        exact Building.ends_make halways hyields
      next => exact Building.ends_throw _ h

theorem Store.isFresh_addLeaf (s : Store) (cell : Cell) : (s.addLeaf cell).1.IsFresh s.size where
  nodup := List.nodup_singleton _
  le mark hmark := by
    obtain rfl := List.mem_singleton.mp hmark
    exact le_refl _

/-- **Building**: whatever is asked of it, building adds nodes in order, and yields a stored diagram
    of new nodes or none. -/
theorem ends_build (order : List Int) (level : Int) (cells : List Cell) {s : Store}
    (h : s.IsOrdered) :
    (build order level cells).Ends s (fun s' => s.Extends s' ∧ s'.IsOrdered)
      fun node s' => node.IsStored s' ∧ node.IsFresh s.size := by
  -- That a half adds to the store is part of what it yields, since the second one begins there.
  have hends : (build order level cells).Ends s (fun s' => s.Extends s' ∧ s'.IsOrdered)
      fun node s' => s.Extends s' ∧ node.IsStored s' ∧ node.IsFresh s.size := by
    refine ends_build_of (fun s' => s.Extends s' ∧ s'.IsOrdered)
      (fun s _ node s' => s.Extends s' ∧ node.IsStored s' ∧ node.IsFresh s.size)
      ?leaf ?decision order level cells ⟨.refl s, h⟩
    case leaf =>
      intro s' cell ⟨hgrown, hordered⟩
      exact ⟨⟨hgrown.trans (s'.extends_push _), hordered.addLeaf cell⟩, s'.extends_push _,
        s'.isStored_addLeaf cell, s'.isFresh_addLeaf cell⟩
    case decision =>
      intro s₀ s₁ s₂ _ _ var high low _ h₁ h₂ ⟨hfirst, hhigh, hhighFresh⟩
        ⟨hsecond, hlow, hlowFresh⟩
      have hadded := s₂.extends_addReduced var high low
      have hstored := hhigh.extend hsecond
      exact ⟨⟨h₂.1.trans hadded, h₂.2.addReduced var hstored hlow⟩,
        (hfirst.trans hsecond).trans hadded, Store.isStored_addReduced var hstored hlow,
        Store.isFresh_addReduced hhighFresh hhigh hfirst.size_le hlowFresh hlow hsecond.size_le
          var⟩
  exact hends.mono (fun _ h => h) fun _ _ _ h => h.2

end Dichotomy
