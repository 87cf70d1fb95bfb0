import ShaderGraph.Proofs.Frame

/-! Graphs of two evaluations that correspond to each other. The nodes of one material graph stand
in other places in another one, and a graph made for a call corresponds to the graph made for the
corresponding call. So each graph has at most one twin, and what can be looked up in a graph can be
looked up in its twin. -/

namespace ShaderGraph

/-! ### Nodes in other places -/

/-- The connections lead to the same box of a node, wherever that stands. -/
structure Connection.Moved (place : Nat → Nat) (c c' : Connection) : Prop where
  node : c'.node.toNat = place c.node.toNat
  box : c'.box = c.box

structure Box.Moved (place : Nat → Nat) (b b' : Box) : Prop where
  decl : b'.decl = b.decl
  connection : Option.Rel (Connection.Moved place) b.connection b'.connection

/-- The node is the same but for the places of the nodes that feed it. -/
structure Node.Moved (place : Nat → Nat) (n n' : Node) : Prop where
  id : n'.id = n.id
  kind : n'.kind = n.kind
  params : n'.params = n.params
  boxes : List.Forall₂ (Box.Moved place) n.boxes n'.boxes

/-- The nodes of a graph stand in another one, in given places. The outputs of custom code have no
other readers there. -/
structure Graph.Embeds (place : Nat → Nat) (g g' : Graph) : Prop where
  injective : Function.Injective place
  node : ∀ n, Option.Rel (Node.Moved place) (g.node? n) (g'.node? (place n))
  readers : ∀ n node, g.node? n = some node → node.kind = .customCode →
    ∀ k < CustomCode.outputCount, g'.hasConsumers (place n) (CustomCode.outputBox k) =
      g.hasConsumers n (CustomCode.outputBox k)

/-- A site and the one that takes its place. -/
structure Site.Moved (place : Nat → Nat) (site site' : Site) : Prop where
  node_eq : site'.key.node = place site.key.node
  box : site'.box = site.box
  graph : site.graph.Embeds place site'.graph
  held : site.graph.node? site.key.node = some site.node
  node : site.node.Moved place site'.node

section

variable {place : Nat → Nat}

theorem Box.Moved.refl (b : Box) : b.Moved (fun n => n) b := by
  refine ⟨rfl, ?_⟩
  cases b.connection with
  | none => exact .none
  | some c => exact .some ⟨rfl, rfl⟩

theorem Node.Moved.refl (n : Node) : n.Moved (fun n => n) n :=
  ⟨rfl, rfl, rfl, List.forall₂_same.mpr fun b _ => .refl b⟩

theorem Graph.Embeds.refl (g : Graph) : g.Embeds (fun n => n) g := by
  refine ⟨Function.injective_id, fun n => ?_, fun _ _ _ _ _ _ => rfl⟩
  cases g.node? n with
  | none => exact .none
  | some node => exact .some (.refl node)

/-- The first of related members, by tests that agree. -/
theorem optionRel_find? {α β : Type} {R : α → β → Prop} {p : α → Bool} {q : β → Bool} {l : List α}
    {l' : List β} (h : List.Forall₂ R l l') (hp : ∀ x y, R x y → q y = p x) :
    Option.Rel R (l.find? p) (l'.find? q) := by
  induction h with
  | nil => exact .none
  | @cons x y _ _ hxy _ ih =>
    rw [List.find?_cons, List.find?_cons, hp x y hxy]
    cases p x with
    | true => exact .some hxy
    | false => exact ih

/-- What related answers have in common. -/
theorem optionRel_map_eq {α β γ : Type} {R : α → β → Prop} {a : Option α} {b : Option β} {f : α → γ}
    {f' : β → γ} (h : Option.Rel R a b) (hf : ∀ x y, R x y → f' y = f x) : b.map f' = a.map f := by
  cases h with
  | none => rfl
  | some h => exact congrArg some (hf _ _ h)

theorem Node.Moved.box? {n n' : Node} (h : n.Moved place n') (id : BoxId) :
    Option.Rel (Box.Moved place) (n.box? id) (n'.box? id) :=
  optionRel_find? h.boxes fun _ _ hb => congrArg (BoxDecl.id · == id) hb.decl

theorem Graph.Embeds.box? {g g' : Graph} (h : g.Embeds place g') (n : Nat) (id : BoxId) :
    Option.Rel (Box.Moved place) (g.box? n id) (g'.box? (place n) id) := by
  have hnode := h.node n
  unfold Graph.box?
  generalize g.node? n = a, g'.node? (place n) = b at hnode
  cases hnode with
  | none => exact .none
  | some hnode => exact hnode.box? id

theorem mapM_eq_of_forall {m : Type → Type} [Monad m] {α β : Type} {f f' : α → m β} {l : List α}
    (h : ∀ x ∈ l, f x = f' x) : l.mapM f = l.mapM f' := by
  suffices hloop : ∀ done, List.mapM.loop f l done = List.mapM.loop f' l done from hloop []
  induction l with
  | nil => exact fun _ => rfl
  | cons x l ih =>
    intro done
    rw [List.mapM.loop, List.mapM.loop, h x List.mem_cons_self]
    exact congrArg (f' x >>= ·) (funext fun b => ih (fun y hy => h y (.tail x hy)) (b :: done))

/-- A site and one that looks the same to a recipe. -/
structure Site.Alike (site site' : Site) : Prop where
  box : site'.box = site.box
  kind : site'.node.kind = site.node.kind
  params : site'.node.params = site.node.params
  decls : ∀ id, (site'.node.box? id).map Box.decl = (site.node.box? id).map Box.decl
  readers : site.node.kind = .customCode → ∀ k < CustomCode.outputCount,
    site'.graph.hasConsumers site'.key.node (CustomCode.outputBox k) =
      site.graph.hasConsumers site.key.node (CustomCode.outputBox k)

theorem Site.Moved.alike {site site' : Site} (h : site.Moved place site') : site.Alike site' where
  box := h.box
  kind := h.node.kind
  params := h.node.params
  decls id := optionRel_map_eq (h.node.box? id) fun _ _ hb => hb.decl
  readers hk k hlt := by
    rw [h.node_eq]
    exact h.graph.readers _ _ h.held hk k hlt

namespace Site.Alike

variable {site site' : Site}

theorem boxType (h : site.Alike site') (id : BoxId) : site'.boxType id = site.boxType id := by
  have htypes := congrArg (Option.map BoxDecl.type) (h.decls id)
  rw [Option.map_map, Option.map_map] at htypes
  exact congrArg (·.getD .float1) htypes

theorem isSome_box? (h : site.Alike site') (id : BoxId) :
    (site'.node.box? id).isSome = (site.node.box? id).isSome := by
  rw [← Option.isSome_map, h.decls, Option.isSome_map]

theorem param? (h : site.Alike site') (i : Nat) :
    site'.node.param? i = site.node.param? i := by
  rw [Node.param?, Node.param?, h.params]

theorem callee (h : site.Alike site') : site'.node.callee = site.node.callee := by
  rw [Node.callee, Node.callee, h.param?]

theorem paramValue? {ρ : Type} (h : site.Alike site') (i : Nat) :
    (site'.paramValue? i : Option (Value ρ)) = site.paramValue? i := by
  rw [Site.paramValue?, Site.paramValue?, h.param?]

theorem operandOrParam {ρ : Type} (h : site.Alike site') (box : BoxId) (param : Nat) :
    (Recipe.operandOrParam site' box param : Recipe ρ _) = .operandOrParam site box param := by
  rw [Recipe.operandOrParam, Recipe.operandOrParam, h.paramValue?, h.boxType]

theorem customOutputs {ρ : Type} (h : site.Alike site')
    (hk : site.node.kind = .customCode) :
    (Recipe.customOutputs site' : Recipe ρ _) = .customOutputs site := by
  refine mapM_eq_of_forall fun k hmem => ?_
  rw [h.readers hk k (List.mem_range.mp hmem)]

theorem invalidOutput {ρ : Type} (h : site.Alike site') :
    (Recipe.invalidOutput site' : Recipe ρ _) = .invalidOutput site := by
  rw [Recipe.invalidOutput, Recipe.invalidOutput, h.box]

theorem customCode {ρ : Type} (h : site.Alike site') (hk : site.node.kind = .customCode) :
    (Recipe.customCode site' : Recipe ρ _) = .customCode site := by
  have hblock (text : String) : (Recipe.customBlock site' text : Recipe ρ _) =
      .customBlock site text := by
    unfold Recipe.customBlock
    rw [h.customOutputs hk, h.kind]
  unfold Recipe.customCode
  rw [h.box, h.param?, h.invalidOutput]
  split
  next => rfl
  next i _ =>
    dsimp only
    split
    next => rfl
    next =>
      rw [hblock]
      refine congrArg (Recipe.customBlock site _ >>= ·) (funext fun outputs => ?_)
      have hbox := h.isSome_box? site.box
      cases hb : site.node.box? site.box <;> cases hb' : site'.node.box? site.box
      · rfl
      · simp [hb, hb'] at hbox
      · simp [hb, hb'] at hbox
      · rcases outputs[i]? with _ | _ | v <;> rfl

/-- The recipe of a box does not depend on what its node is fed from. -/
theorem recipe {ρ : Type} (h : site.Alike site') (domain : Domain) (stage : Stage) :
    (site'.recipe domain stage : Recipe ρ _) = site.recipe domain stage := by
  unfold Site.recipe
  rw [h.kind]
  cases hk : site.node.kind with
  | customCode => exact h.customCode hk
  | cameraDepthFade =>
    dsimp only
    rw [Recipe.cameraDepthFade, Recipe.cameraDepthFade, h.operandOrParam, h.operandOrParam,
      h.kind]
  | depthFade =>
    dsimp only
    rw [Recipe.depthFade, Recipe.depthFade, h.paramValue?, h.kind]
  | terrainLayerWeight =>
    dsimp only
    rw [Recipe.terrainLayerWeight, Recipe.terrainLayerWeight, h.param?]
  | bool | integer | float | vector2 | vector3 | vector4 =>
    dsimp only
    rw [Recipe.constant, Recipe.constant, h.paramValue?, h.box, h.boxType]
  | add | subtract | multiply | divide | min | max | dot =>
    dsimp only
    rw [Recipe.binary, Recipe.binary, h.operandOrParam, h.operandOrParam]
  | abs | saturate | normalize =>
    dsimp only
    rw [Recipe.unary, Recipe.unary, h.operandOrParam]
  | view | screenPosition | screenSize =>
    dsimp only
    rw [h.box, h.invalidOutput]
  | _ => rfl

end Site.Alike

end

/-! ### Graphs made for corresponding calls -/

namespace CallTree

/-- Only the nodes of the material graph stand in other places. -/
def placeIn (place : Nat → Nat) (graph : Nat) : Nat → Nat :=
  if graph = 0 then place else fun n => n

/-- Graphs of two trees that were made for the same function, at corresponding calls. -/
inductive Twins (place : Nat → Nat) (left right : List Instance) : Nat → Nat → Prop
  | root : Twins place left right 0 0
  | call {i j o o'} (ho : origin? left i = some o) (ho' : origin? right j = some o')
      (hc : Twins place left right o.caller o'.caller)
      (hs : o'.site = placeIn place o.caller o.site) (hf : o'.function = o.function) :
      Twins place left right i j

/-- Corresponding nodes of two trees, each given by its graph and its place there. -/
structure NodeTwins (place : Nat → Nat) (left right : List Instance) (p p' : Nat × Nat) : Prop where
  graph : Twins place left right p.1 p'.1
  node : p'.2 = placeIn place p.1 p.2

structure KeyTwins (place : Nat → Nat) (left right : List Instance) (key key' : BoxKey) : Prop where
  place : NodeTwins place left right key.place key'.place
  box : key'.box = key.box

structure FrameTwins (place : Nat → Nat) (left right : List Instance) (f f' : CallFrame) :
    Prop where
  site : NodeTwins place left right (f.caller, f.site) (f'.caller, f'.site)
  graph : Twins place left right f.graph f'.graph
  function : f'.function = f.function

structure ContextTwins (place : Nat → Nat) (left right : List Instance) (c c' : CallContext) :
    Prop where
  frames : List.Forall₂ (FrameTwins place left right) c.frames c'.frames
  graphs : List.Forall₂ (Twins place left right) c.graphs c'.graphs

structure SlotTwins (place : Nat → Nat) (left right : List Instance) (slot slot' : Slot) :
    Prop where
  node : KeyTwins place left right slot.node slot'.node
  input : slot'.input.box = slot.input.box
  context : ContextTwins place left right slot.context slot'.context

/-- The trees of two materials, the nodes of one of which stand in places of the other. -/
structure Paired (settings : Settings) (place : Nat → Nat) (g g' : Graph)
    (left right : List Instance) : Prop where
  embeds : g.Embeds place g'
  tree : CallTree settings g left
  tree' : CallTree settings g' right

/-- The graph made for a call is that of its function. -/
theorem graph_of_origin? {settings : Settings} {g : Graph} {table : List Instance} {i : Nat}
    {o : Origin} (ht : CallTree settings g table) (ho : origin? table i = some o) :
    i ≠ 0 ∧ ∃ inst, table[i]? = some inst ∧ inst.graph = o.function.graph := by
  have h0 : i ≠ 0 := by
    rintro rfl
    simp [ht.origin?_root] at ho
  obtain ⟨inst, hi, hin⟩ := getElem?_of_origin? ho
  obtain ⟨o', ho', hgraph⟩ := ht.made i inst hi h0
  obtain rfl : o' = o := Option.some.inj (ho'.symm.trans hin)
  exact ⟨h0, inst, hi, hgraph⟩

section

variable {settings : Settings} {place : Nat → Nat} {g g' : Graph}
  {left right left' right' : List Instance} {i j i' j' : Nat} {o : Origin}

/-! In longer tables -/

theorem Twins.mono (hl : left <+: left') (hr : right <+: right') (h : Twins place left right i j) :
    Twins place left' right' i j := by
  induction h with
  | root => exact .root
  | call ho ho' _ hs hf ih => exact .call (origin?_mono hl ho) (origin?_mono hr ho') ih hs hf

theorem NodeTwins.mono {p p' : Nat × Nat} (hl : left <+: left') (hr : right <+: right')
    (h : NodeTwins place left right p p') : NodeTwins place left' right' p p' :=
  ⟨h.graph.mono hl hr, h.node⟩

theorem KeyTwins.mono {key key' : BoxKey} (hl : left <+: left') (hr : right <+: right')
    (h : KeyTwins place left right key key') : KeyTwins place left' right' key key' :=
  ⟨h.place.mono hl hr, h.box⟩

theorem ContextTwins.mono {c c' : CallContext} (hl : left <+: left') (hr : right <+: right')
    (h : ContextTwins place left right c c') : ContextTwins place left' right' c c' :=
  ⟨h.frames.imp fun _ _ hf => ⟨hf.site.mono hl hr, hf.graph.mono hl hr, hf.function⟩,
    h.graphs.imp fun _ _ hi => hi.mono hl hr⟩

theorem SlotTwins.mono {slot slot' : Slot} (hl : left <+: left') (hr : right <+: right')
    (h : SlotTwins place left right slot slot') : SlotTwins place left' right' slot slot' :=
  ⟨h.node.mono hl hr, h.input, h.context.mono hl hr⟩

/-! Each has one twin -/

namespace Paired

variable (hp : Paired settings place g g' left right)

include hp

theorem injective (i : Nat) : Function.Injective (placeIn place i) := by
  unfold placeIn
  split
  · exact hp.embeds.injective
  · exact Function.injective_id

theorem right_unique (h : Twins place left right i j) (h' : Twins place left right i j') :
    j = j' := by
  induction h generalizing j' with
  | root =>
    cases h' with
    | root => rfl
    | call ho => simp [hp.tree.origin?_root] at ho
  | call ho ho' _ hs _ ih =>
    cases h' with
    | root => simp [hp.tree.origin?_root] at ho
    | @call _ _ o₁ o₁' ho₁ ho₁' hc₁ hs₁ =>
      obtain rfl : _ = o₁ := Option.some.inj (ho.symm.trans ho₁)
      exact hp.tree'.once _ _ _ _ ho' ho₁' (ih hc₁) (hs.trans hs₁.symm)

theorem left_unique (h : Twins place left right i j) (h' : Twins place left right i' j) :
    i = i' := by
  induction h generalizing i' with
  | root =>
    cases h' with
    | root => rfl
    | call _ ho' => simp [hp.tree'.origin?_root] at ho'
  | call ho ho' _ hs _ ih =>
    cases h' with
    | root => simp [hp.tree'.origin?_root] at ho'
    | @call _ _ o₁ o₁' ho₁ ho₁' hc₁ hs₁ =>
      obtain rfl : _ = o₁' := Option.some.inj (ho'.symm.trans ho₁')
      have hcaller := ih hc₁
      rw [hs, hcaller] at hs₁
      exact hp.tree.once _ _ _ _ ho ho₁ hcaller (hp.injective _ hs₁)

theorem node_right_unique {p q q' : Nat × Nat} (h : NodeTwins place left right p q)
    (h' : NodeTwins place left right p q') : q = q' :=
  Prod.ext (hp.right_unique h.graph h'.graph) (h.node.trans h'.node.symm)

theorem node_left_unique {p p' q : Nat × Nat} (h : NodeTwins place left right p q)
    (h' : NodeTwins place left right p' q) : p = p' := by
  have hgraph := hp.left_unique h.graph h'.graph
  have hnode := h.node.symm.trans h'.node
  rw [← hgraph] at hnode
  exact Prod.ext hgraph (hp.injective _ hnode)

theorem key_right_unique {key key₁ key₂ : BoxKey} (h : KeyTwins place left right key key₁)
    (h' : KeyTwins place left right key key₂) : key₁ = key₂ :=
  BoxKey.eq_of_place (hp.node_right_unique h.place h'.place) (h.box.trans h'.box.symm)

theorem key_left_unique {key₁ key₂ key : BoxKey} (h : KeyTwins place left right key₁ key)
    (h' : KeyTwins place left right key₂ key) : key₁ = key₂ :=
  BoxKey.eq_of_place (hp.node_left_unique h.place h'.place) (h.box.symm.trans h'.box)

/-! What twins have in common -/

/-- A called graph is the same as its twin. -/
theorem called (ho : origin? left i = some o) (h : Twins place left right i j) :
    i ≠ 0 ∧ ∃ inst inst', left[i]? = some inst ∧ right[j]? = some inst' ∧
      inst'.graph = inst.graph := by
  cases h with
  | root => simp [hp.tree.origin?_root] at ho
  | @call _ _ o₁ o' ho₁ ho' _ _ hf =>
    obtain ⟨h0, inst, hi, hgraph⟩ := hp.tree.graph_of_origin? ho₁
    obtain ⟨-, inst', hj, hgraph'⟩ := hp.tree'.graph_of_origin? ho'
    exact ⟨h0, inst, inst', hi, hj, by rw [hgraph, hgraph', hf]⟩

theorem embeds_twins (h : Twins place left right i j) :
    ∃ inst inst', left[i]? = some inst ∧ right[j]? = some inst' ∧
      inst.graph.Embeds (placeIn place i) inst'.graph := by
  cases h with
  | root => exact ⟨_, _, hp.tree.root, hp.tree'.root, hp.embeds⟩
  | call ho ho' hc hs hf =>
    obtain ⟨h0, inst, inst', hi, hj, hgraph⟩ := hp.called ho (.call ho ho' hc hs hf)
    refine ⟨inst, inst', hi, hj, ?_⟩
    rw [placeIn, if_neg h0, hgraph]
    exact .refl inst.graph

theorem lt_left (h : Twins place left right i j) : i < left.length := by
  obtain ⟨inst, _, hi, -⟩ := hp.embeds_twins h
  exact (List.getElem?_eq_some_iff.mp hi).1

theorem function_eq (h : Twins place left right i j) :
    (origin? right j).map (·.function) = (origin? left i).map (·.function) := by
  cases h with
  | root => rw [hp.tree.origin?_root, hp.tree'.origin?_root]
  | call ho ho' _ _ hf => rw [ho, ho', Option.map_some, Option.map_some, hf]

theorem node? {p p' : Nat × Nat} (h : NodeTwins place left right p p') :
    Option.Rel (Node.Moved (placeIn place p.1)) (CallTree.node? left p.1 p.2)
      (CallTree.node? right p'.1 p'.2) := by
  obtain ⟨inst, inst', hi, hj, hembeds⟩ := hp.embeds_twins h.graph
  rw [CallTree.node?, CallTree.node?, hi, hj, h.node]
  exact hembeds.node p.2

end Paired

end

end CallTree

/-! ### What can be looked up in twins -/

namespace CallTree.Paired

variable {settings : Settings} {place : Nat → Nat} {g g' : Graph} {s u : State} {key key' : BoxKey}
  (hp : Paired settings place g g' s.instances u.instances)

include hp

theorem box? (h : KeyTwins place s.instances u.instances key key') :
    Option.Rel (Box.Moved (placeIn place key.graph)) (s.box? key) (u.box? key') := by
  obtain ⟨inst, inst', hi, hj, hembeds⟩ := hp.embeds_twins h.place.graph
  have hnode : key'.node = placeIn place key.graph key.node := h.place.node
  have hi' : s.instance? key.graph = some inst := hi
  have hj' : u.instance? key'.graph = some inst' := hj
  rw [State.box?, State.box?, hi', hj', h.box, hnode]
  exact hembeds.box? key.node key.box

theorem boxType (h : KeyTwins place s.instances u.instances key key') :
    u.boxType key' = s.boxType key :=
  congrArg (·.getD .float1)
    (optionRel_map_eq (hp.box? h) fun _ _ hb => congrArg BoxDecl.type hb.decl)

theorem isSome_box? (h : KeyTwins place s.instances u.instances key key') :
    (u.box? key').isSome = (s.box? key).isSome := by
  rw [← Option.isSome_map, optionRel_map_eq (hp.box? h) fun _ _ hb => hb.decl, Option.isSome_map]

theorem site? (h : KeyTwins place s.instances u.instances key key') :
    Option.Rel (Site.Moved (placeIn place key.graph)) (s.site? key) (u.site? key') := by
  obtain ⟨inst, inst', hi, hj, hembeds⟩ := hp.embeds_twins h.place.graph
  have hnode : key'.node = placeIn place key.graph key.node := h.place.node
  have hi' : s.instance? key.graph = some inst := hi
  have hj' : u.instance? key'.graph = some inst' := hj
  have hrel : Option.Rel (Node.Moved (placeIn place key.graph)) (inst.graph.node? key.node)
      (inst'.graph.node? (placeIn place key.graph key.node)) := hembeds.node key.node
  unfold State.site?
  rw [hi', hj', hnode]
  generalize hn : inst.graph.node? key.node = a at hrel
  generalize hn' : inst'.graph.node? (placeIn place key.graph key.node) = b at hrel
  cases hrel with
  | none =>
    simp only [bind, Option.bind_some, hn, hn']
    exact .none
  | some hmoved =>
    simp only [bind, Option.bind_some, hn, hn']
    exact .some ⟨hnode, h.box, hembeds, hn, hmoved⟩

theorem producer? (h : KeyTwins place s.instances u.instances key key') :
    Option.Rel (KeyTwins place s.instances u.instances) (s.producer? key) (u.producer? key') := by
  have hrel := hp.box? h
  unfold State.producer?
  generalize s.box? key = a, u.box? key' = b at hrel
  cases hrel with
  | none => exact .none
  | @some b b' hb =>
    have hconnection := hb.connection
    rw [Option.bind_some, Option.bind_some]
    generalize b.connection = c, b'.connection = c' at hconnection
    cases hconnection with
    | none => exact .none
    | some hc => exact .some ⟨⟨h.place.graph, hc.node⟩, hc.box⟩

/-! Calls -/

theorem isCalling (h : ContextTwins place s.instances u.instances s.context u.context)
    (id : AssetId) : u.isCalling id = s.isCalling id := by
  have hgraphs := h.graphs
  unfold State.isCalling
  generalize s.context.graphs = c, u.context.graphs = c' at hgraphs
  induction hgraphs with
  | nil => rfl
  | @cons i j _ _ hij _ ih =>
    have hfunction := hp.function_eq hij
    have hleft : (s.instance? i).bind (·.origin) = origin? s.instances i := rfl
    have hright : (u.instance? j).bind (·.origin) = origin? u.instances j := rfl
    rw [List.any_cons, List.any_cons, ih, hleft, hright]
    refine congrArg (· || _) ?_
    generalize origin? s.instances i = a, origin? u.instances j = b at hfunction
    cases a with
    | none =>
      obtain rfl : b = none := Option.map_eq_none_iff.mp hfunction
      rfl
    | some o =>
      obtain ⟨o', rfl, ho'⟩ := Option.map_eq_some_iff.mp hfunction
      exact congrArg (MaterialFunction.id · == id) ho'

theorem outputNode? {site site' : Site} {function : MaterialFunction} {i j : Nat} {o : Origin}
    (hbox : site'.box = site.box) (ho : origin? s.instances i = some o)
    (h : Twins place s.instances u.instances i j) :
    Engine.outputNode? u site' function j = Engine.outputNode? s site function i := by
  obtain ⟨-, inst, inst', hi, hj, hgraph⟩ := hp.called ho h
  have hi' : s.instance? i = some inst := hi
  have hj' : u.instance? j = some inst' := hj
  unfold Engine.outputNode?
  rw [hbox, hi', hj']
  simp only [bind, Option.bind_some, hgraph]

end CallTree.Paired

namespace CallTree

variable {settings : Settings} {place : Nat → Nat} {g g' : Graph} {left right : List Instance}

theorem forall₂_tail {α β : Type} {R : α → β → Prop} {l : List α} {l' : List β}
    (h : List.Forall₂ R l l') : List.Forall₂ R l.tail l'.tail := by
  cases h with
  | nil => exact .nil
  | cons _ h => exact h

/-- The same node of a called graph and of its twin. -/
theorem Twins.key {i j : Nat} (h : Twins place left right i j) (h0 : i ≠ 0) (node : Nat)
    (box : BoxId) : KeyTwins place left right ⟨i, node, box⟩ ⟨j, node, box⟩ := by
  refine ⟨⟨h, ?_⟩, rfl⟩
  change node = placeIn place i node
  rw [placeIn, if_neg h0]

theorem KeyTwins.sibling {key key' : BoxKey} (h : KeyTwins place left right key key')
    (box : BoxId) : KeyTwins place left right (key.sibling box) (key'.sibling box) :=
  ⟨h.place, rfl⟩

namespace ContextTwins

variable {c c' : CallContext}

theorem enter {f f' : CallFrame} (h : ContextTwins place left right c c')
    (hf : FrameTwins place left right f f') :
    ContextTwins place left right (c.enter f) (c'.enter f') :=
  ⟨.cons hf h.frames, .cons hf.graph h.graphs⟩

theorem inCaller (h : ContextTwins place left right c c') :
    ContextTwins place left right c.inCaller c'.inCaller :=
  ⟨h.frames, forall₂_tail h.graphs⟩

theorem leave (h : ContextTwins place left right c c') :
    ContextTwins place left right c.leave c'.leave :=
  ⟨forall₂_tail h.frames, forall₂_tail h.graphs⟩

theorem back {i j : Nat} (h : ContextTwins place left right c c')
    (hij : Twins place left right i j) : ContextTwins place left right (c.back i) (c'.back j) :=
  ⟨h.frames, .cons hij h.graphs⟩

end ContextTwins

theorem Paired.currentFrame? {c c' : CallContext} (hp : Paired settings place g g' left right)
    (h : ContextTwins place left right c c') :
    Option.Rel (FrameTwins place left right) c.currentFrame? c'.currentFrame? := by
  obtain ⟨hframes, hgraphs⟩ := h
  unfold CallContext.currentFrame? CallContext.current?
  generalize c.graphs = l, c'.graphs = l' at hgraphs
  cases hgraphs with
  | nil => exact .none
  | @cons i j _ _ hij =>
    refine optionRel_find? hframes fun f f' hf => ?_
    rw [Bool.eq_iff_iff, beq_iff_eq, beq_iff_eq]
    constructor
    · rintro rfl
      exact hp.left_unique hf.graph hij
    · rintro rfl
      exact hp.right_unique hf.graph hij

theorem FrameTwins.argument? {f f' : CallFrame} (h : FrameTwins place left right f f')
    (id : NodeId) :
    Option.Rel (KeyTwins place left right) (f.argument? id) (f'.argument? id) := by
  unfold CallFrame.argument?
  rw [h.function]
  dsimp only
  split
  · exact .some ⟨h.site, rfl⟩
  · exact .none

/-! Where a diagnostic is -/

/-- The call nodes that lead to a graph. -/
def callPath (table : List Instance) (i : Nat) : List NodeId :=
  ((origin? table i).map (·.callPath)).getD []

/-- The path of a graph is that of its caller, with the call node at its end. -/
def Named (table : List Instance) : Prop :=
  ∀ i o, origin? table i = some o → ∃ node, node? table o.caller o.site = some node ∧
    o.callPath = callPath table o.caller ++ [node.id]

theorem named_single (g : Graph) : Named [⟨g, none⟩] := by
  intro i o ho
  cases i <;> cases ho

theorem callPath_of_lt {table table' : List Instance} {i : Nat} (hp : table <+: table')
    (hi : i < table.length) : callPath table' i = callPath table i := by
  rw [callPath, callPath, origin?_of_lt hp hi]

theorem Named.append {table : List Instance} {caller n : Nat} {node : Node} (h : Named table)
    (hn : node? table caller n = some node) (graph : Graph) (function : MaterialFunction) :
    Named (table ++
      [⟨graph, some ⟨caller, n, function, callPath table caller ++ [node.id]⟩⟩]) := by
  intro i o ho
  have hp := List.prefix_append table
    [⟨graph, some ⟨caller, n, function, callPath table caller ++ [node.id]⟩⟩]
  rw [origin?_append_one] at ho
  split at ho
  next =>
    obtain rfl := Option.some.inj ho
    exact ⟨node, node?_mono hp hn, by rw [callPath_of_lt hp (lt_of_node? hn)]⟩
  next =>
    obtain ⟨node', hn', hpath⟩ := h i o ho
    exact ⟨node', node?_mono hp hn', by rw [callPath_of_lt hp (lt_of_node? hn'), hpath]⟩

theorem Paired.callPath_eq {i j : Nat} (hp : Paired settings place g g' left right)
    (hl : Named left) (hr : Named right) (h : Twins place left right i j) :
    callPath right j = callPath left i := by
  induction h with
  | root => rw [callPath, callPath, hp.tree.origin?_root, hp.tree'.origin?_root]
  | @call i j o o' ho ho' hc hs _ ih =>
    obtain ⟨node, hn, hpath⟩ := hl i o ho
    obtain ⟨node', hn', hpath'⟩ := hr j o' ho'
    have hsite : NodeTwins place left right (o.caller, o.site) (o'.caller, o'.site) := ⟨hc, hs⟩
    have hmoved := hp.node? hsite
    rw [hn, hn'] at hmoved
    cases hmoved with
    | some hmoved =>
      rw [callPath, callPath, ho, ho', Option.map_some, Option.map_some, Option.getD_some,
        Option.getD_some, hpath, hpath', ih, hmoved.id]

theorem Paired.diagnose {s u : State} {key key' : BoxKey}
    (hp : Paired settings place g g' s.instances u.instances) (hl : Named s.instances)
    (hr : Named u.instances) (h : KeyTwins place s.instances u.instances key key')
    (cause : Cause) : u.diagnose key' cause = s.diagnose key cause := by
  have hfunction := congrArg (Option.map MaterialFunction.id) (hp.function_eq h.place.graph)
  have hpath := hp.callPath_eq hl hr h.place.graph
  have hid := optionRel_map_eq (hp.node? h.place) fun _ _ hn => hn.id
  rw [Option.map_map, Option.map_map] at hfunction
  simp only [State.diagnose, Diagnostic.mk.injEq]
  exact ⟨hfunction, hpath, congrArg (·.getD 0) hid, h.box, trivial⟩

end CallTree

end ShaderGraph
