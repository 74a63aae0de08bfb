import BraceParams.Proofs.Schema.Shape

/-!
From tokens to nodes. Tokens denote a node if reading them gives events that build it, wherever it stands.
-/

namespace BraceParams.Yaml

def Builds (events : List Event) (node : Node) : Prop :=
  ∀ (b : Node.Builder) rest, ∃ n, b.readFrom (events ++ rest) = ({ b with count := n }.put none node).readFrom rest

def BuildsAll (events : List Event) (nodes : List Node) : Prop :=
  ∀ (b : Node.Builder) o stack rest, b.stack = o :: stack → ∃ n, b.readFrom (events ++ rest) =
    Node.Builder.readFrom { b with stack := { o with nodes := nodes.reverse ++ o.nodes } :: stack, count := n } rest

variable {events events' : List Event} {node : Node} {nodes : List Node}

theorem BuildsAll.nil : BuildsAll [] [] := by
  intro b o stack rest h
  refine ⟨b.count, ?_⟩
  rw [List.reverse_nil, List.nil_append, List.nil_append, ← h]

theorem BuildsAll.cons (h : Builds events node) (h' : BuildsAll events' nodes) :
    BuildsAll (events ++ events') (node :: nodes) := by
  intro b o stack rest hb
  obtain ⟨n, hn⟩ := h b (events' ++ rest)
  have hput : { b with count := n }.put none node = { b with stack := { o with nodes := node :: o.nodes } :: stack, count := n } := by
    simp [Node.Builder.put, hb]
  obtain ⟨n', hn'⟩ := h' ({ b with count := n }.put none node) { o with nodes := node :: o.nodes } stack rest (by rw [hput])
  refine ⟨n', ?_⟩
  rw [List.append_assoc, hn, hn', hput]
  simp

theorem Builds.scalar (m : Mark) (text : List Char) (style : Style) :
    Builds [⟨.scalar none none text style, m⟩] (.scalar m none text style) :=
  fun b _ => ⟨b.count + 1, rfl⟩

theorem Builds.sequence (m m' : Mark) (h : BuildsAll events nodes) :
    Builds (⟨.sequenceStart none none, m⟩ :: events ++ [⟨.sequenceEnd, m'⟩]) (.sequence m none nodes) := by
  intro b rest
  obtain ⟨n, hn⟩ := h (b.open' false none none m) ⟨m, none, false, none, []⟩ b.stack (⟨.sequenceEnd, m'⟩ :: rest) rfl
  refine ⟨n + 1, ?_⟩
  simp only [List.cons_append, List.append_assoc, List.nil_append]
  rw [Node.Builder.readFrom]
  dsimp only
  rw [hn, Node.Builder.readFrom]
  simp [Node.Builder.close, Node.Open.close, Node.Builder.open', Anchors.define?]

theorem pairs_flatMap (entries : List (Node × Node)) :
    Node.pairs (entries.flatMap fun e => [e.1, e.2]) = entries := by
  induction entries with
  | nil => rfl
  | cons e entries ih => simp [Node.pairs, ih]

theorem Builds.mapping (m m' : Mark) {entries : List (Node × Node)}
    (h : BuildsAll events (entries.flatMap fun e => [e.1, e.2])) :
    Builds (⟨.mappingStart none none, m⟩ :: events ++ [⟨.mappingEnd, m'⟩]) (.mapping m none entries) := by
  intro b rest
  obtain ⟨n, hn⟩ := h (b.open' true none none m) ⟨m, none, true, none, []⟩ b.stack (⟨.mappingEnd, m'⟩ :: rest) rfl
  refine ⟨n + 1, ?_⟩
  simp only [List.cons_append, List.append_assoc, List.nil_append]
  rw [Node.Builder.readFrom]
  dsimp only
  rw [hn, Node.Builder.readFrom]
  simp [Node.Builder.close, Node.Open.close, Node.Builder.open', Anchors.define?, pairs_flatMap]

namespace Goal

variable {handles : Handles} {goal : Goal} {goals first : List Goal} {ts ts' : Tokens} {acc : List Event}
  {block indentless : Bool} {t : Token} {l rest : List Token} {opened : Mark}

theorem run_of_step (h : goal.step handles ts = .ok (events, first, ts')) :
    run handles acc (goal :: goals) ts = run handles (events.reverse ++ acc) (first ++ goals) ts' := by
  rw [run]
  split
  · next he => simp [he] at h
  · next he =>
    rw [he] at h
    cases h
    rfl

theorem nodeStep_of_plain (ha : ∀ name, t.kind ≠ .alias name) (hn : ∀ name, t.kind ≠ .anchor name)
    (ht : ∀ handle suffix, t.kind ≠ .tag handle suffix) :
    nodeStep handles block indentless ⟨t :: l, none⟩ =
      content block indentless ⟨none, none, t.start, ⟨t :: l, none⟩⟩ none := by
  have hp : properties ⟨t :: l, none⟩ = .ok ⟨none, none, t.start, ⟨t :: l, none⟩⟩ := by
    simp only [properties, Tokens.peek]
  simp only [nodeStep, Tokens.peek, hp]
  rfl

theorem step_scalar {text : List Char} {style : Style} (h : t.kind = .scalar text style) :
    step handles (.node block indentless) ⟨t :: l, none⟩ =
      .ok ([⟨.scalar none none text style, t.start⟩], [], ⟨l, none⟩) := by
  rw [step, nodeStep_of_plain (by simp [h]) (by simp [h]) (by simp [h])]
  simp [content, Tokens.peek, h, Tokens.drop]

theorem step_flowSequence (h : t.kind = .flowSequenceStart) :
    step handles (.node block indentless) ⟨t :: l, none⟩ =
      .ok ([⟨.sequenceStart none none, t.start⟩], [.flowSequence true t.start], ⟨l, none⟩) := by
  rw [step, nodeStep_of_plain (by simp [h]) (by simp [h]) (by simp [h])]
  simp [content, Tokens.peek, h, Tokens.drop]

theorem step_flowSequenceEnd {first : Bool} (h : t.kind = .flowSequenceEnd) :
    step handles (.flowSequence first opened) ⟨t :: l, none⟩ = .ok ([⟨.sequenceEnd, t.start⟩], [], ⟨l, none⟩) := by
  simp [step, Tokens.peek, h, flowSequenceEntry, Tokens.drop]

theorem step_blockMapping (h : t.kind = .blockMappingStart) :
    step handles (.node true indentless) ⟨t :: l, none⟩ =
      .ok ([⟨.mappingStart none none, t.start⟩], [.blockKey t.start], ⟨l, none⟩) := by
  rw [step, nodeStep_of_plain (by simp [h]) (by simp [h]) (by simp [h])]
  simp [content, Tokens.peek, h, Tokens.drop]

theorem step_indentless (h : t.kind = .blockEntry) :
    step handles (.node block true) ⟨t :: l, none⟩ =
      .ok ([⟨.sequenceStart none none, t.start⟩], [.indentlessSequence], ⟨t :: l, none⟩) := by
  rw [step, nodeStep_of_plain (by simp [h]) (by simp [h]) (by simp [h])]
  simp [content, Tokens.peek, h]

theorem orEmpty_of_not {ends : Token.Kind → Bool} {m : Mark} (h : ends t.kind = false) :
    orEmpty ends goal goals ⟨t :: l, none⟩ m = .ok ([], goal :: goals, ⟨t :: l, none⟩) := by
  simp [orEmpty, Tokens.peek, h]

theorem step_blockEntry {u : Token} (h : t.kind = .blockEntry) (hu : endsIndentlessEntry u.kind = false) :
    step handles .indentlessSequence ⟨t :: u :: l, none⟩ =
      .ok ([], [.node true false, .indentlessSequence], ⟨u :: l, none⟩) := by
  simp only [step, Tokens.peek, h, if_true, Tokens.drop, List.tail_cons]
  exact orEmpty_of_not hu

theorem step_indentlessEnd (handles : Handles) (h : ∀ t ∈ l.head?, t.kind ≠ .blockEntry) :
    ∃ m, step handles .indentlessSequence ⟨l, none⟩ = .ok ([⟨.sequenceEnd, m⟩], [], ⟨l, none⟩) := by
  cases l with
  | nil => exact ⟨_, rfl⟩
  | cons t l =>
    have ht : t.kind ≠ .blockEntry := h t rfl
    exact ⟨t.start, by simp [step, Tokens.peek, ht]⟩

theorem step_blockKey {u : Token} (h : t.kind = .key) (hu : endsBlockPart u.kind = false) :
    step handles (.blockKey opened) ⟨t :: u :: l, none⟩ =
      .ok ([], [.node true true, .blockValue opened], ⟨u :: l, none⟩) := by
  simp only [step, Tokens.peek, h, if_true, Tokens.drop, List.tail_cons]
  exact orEmpty_of_not hu

theorem step_blockValue {u : Token} (h : t.kind = .value) (hu : endsBlockPart u.kind = false) :
    step handles (.blockValue opened) ⟨t :: u :: l, none⟩ =
      .ok ([], [.node true true, .blockKey opened], ⟨u :: l, none⟩) := by
  simp only [step, Tokens.peek, h, if_true, Tokens.drop, List.tail_cons]
  exact orEmpty_of_not hu

theorem step_blockMappingEnd (h : t.kind = .blockEnd) :
    step handles (.blockKey opened) ⟨t :: l, none⟩ = .ok ([⟨.mappingEnd, t.start⟩], [], ⟨l, none⟩) := by
  simp [step, Tokens.peek, h, Tokens.drop]

end Goal

open Goal

variable {indentless : Bool} {kinds : List Token.Kind} {P Q : Node → Prop}

/-- Tokens of these kinds are read as a node with the property. Where a sequence may stand at the column of
the mapping around it, no entry of one follows. -/
structure Denotes (indentless : Bool) (kinds : List Token.Kind) (P : Node → Prop) : Prop where
  starts : ∃ kind later, kinds = kind :: later ∧ endsBlockPart kind = false ∧ (kind = .blockEntry → indentless)
  reads : ∀ handles acc goals l rest, l.map Token.kind = kinds →
    (indentless → ∀ t ∈ rest.head?, t.kind ≠ .blockEntry) →
    ∃ events node, P node ∧ node.bare ∧ Builds events node ∧
      run handles acc (.node true indentless :: goals) ⟨l ++ rest, none⟩ =
        run handles (events.reverse ++ acc) goals ⟨rest, none⟩

theorem Denotes.mono (h : Denotes indentless kinds P) (hPQ : ∀ node, P node → Q node) : Denotes indentless kinds Q := by
  refine ⟨h.starts, fun handles acc goals l rest hl hr => ?_⟩
  obtain ⟨events, node, hP, hb, hbuilds, hrun⟩ := h.reads handles acc goals l rest hl hr
  exact ⟨events, node, hPQ node hP, hb, hbuilds, hrun⟩

theorem Denotes.scalar (text : List Char) (style : Style) :
    Denotes indentless [.scalar text style] fun n => ∃ m, n = .scalar m none text style := by
  refine ⟨⟨.scalar text style, [], rfl, rfl, by simp⟩, fun handles acc goals l rest hl _ => ?_⟩
  obtain ⟨t, rfl, ht⟩ := List.map_eq_singleton_iff.mp hl
  exact ⟨_, _, ⟨t.start, rfl⟩, rfl, .scalar t.start text style, run_of_step (step_scalar ht)⟩

theorem Denotes.emptySequence :
    Denotes indentless [.flowSequenceStart, .flowSequenceEnd] fun n => ∃ m, n = .sequence m none [] := by
  refine ⟨⟨.flowSequenceStart, _, rfl, rfl, by simp⟩, fun handles acc goals l rest hl _ => ?_⟩
  obtain ⟨t, l', rfl, ht, hl'⟩ := List.map_eq_cons_iff.mp hl
  obtain ⟨u, rfl, hu⟩ := List.map_eq_singleton_iff.mp hl'
  refine ⟨_, _, ⟨t.start, rfl⟩, rfl, .sequence t.start u.start .nil, ?_⟩
  rw [List.cons_append, run_of_step (step_flowSequence ht)]
  exact run_of_step (step_flowSequenceEnd hu)

structure Part where
  kinds : List Token.Kind
  Is : Node → Prop

def itemKinds (items : List Part) : List Token.Kind :=
  items.flatMap fun i => .blockEntry :: i.kinds

theorem run_items {items : List Part} (h : ∀ i ∈ items, Denotes false i.kinds i.Is) (handles : Handles)
    (acc : List Event) (goals : List Goal) {l rest : List Token} (hl : l.map Token.kind = itemKinds items)
    (hr : ∀ t ∈ rest.head?, t.kind ≠ .blockEntry) :
    ∃ events nodes m, List.Forall₂ (fun i n => i.Is n) items nodes ∧ (∀ n ∈ nodes, n.bare) ∧
      BuildsAll events nodes ∧ run handles acc (.indentlessSequence :: goals) ⟨l ++ rest, none⟩ =
        run handles (⟨.sequenceEnd, m⟩ :: (events.reverse ++ acc)) goals ⟨rest, none⟩ := by
  induction items generalizing l acc with
  | nil =>
    obtain rfl := List.map_eq_nil_iff.mp hl
    obtain ⟨m, hm⟩ := step_indentlessEnd handles hr
    exact ⟨[], [], m, .nil, by simp, .nil, run_of_step hm⟩
  | cons i items ih =>
    obtain ⟨t, l', rfl, ht, hl'⟩ := List.map_eq_cons_iff.mp hl
    obtain ⟨l₁, l₂, rfl, hl₁, hl₂⟩ := List.map_eq_append_iff.mp hl'
    have hi : Denotes false i.kinds i.Is := h i List.mem_cons_self
    -- Behind the indicator a token has to follow that starts a node, or the item would be read as empty.
    obtain ⟨kind, later, hk, hends, hentry⟩ := hi.starts
    obtain ⟨u, l₃, rfl, hu, hl₃⟩ := List.map_eq_cons_iff.mp (hl₁.trans hk)
    have hends' : endsIndentlessEntry u.kind = false := by
      simp only [endsBlockPart, Bool.or_eq_false_iff, decide_eq_false_iff_not] at hends
      have hne : kind ≠ .blockEntry := fun he => Bool.false_ne_true (hentry he)
      simp [endsIndentlessEntry, hu, hends, hne]
    obtain ⟨events, node, hP, hb, hbuilds, hrun⟩ :=
      hi.reads handles acc (.indentlessSequence :: goals) (u :: l₃) (l₂ ++ rest) hl₁ (by simp)
    obtain ⟨events', nodes, m, hPs, hbs, hall, hrun'⟩ := ih (fun j hj => h j (List.mem_cons_of_mem i hj))
      (events.reverse ++ acc) hl₂
    refine ⟨events ++ events', node :: nodes, m, .cons hP hPs, List.forall_mem_cons.mpr ⟨hb, hbs⟩, .cons hbuilds hall, ?_⟩
    rw [List.reverse_append, List.append_assoc, ← hrun', ← hrun, List.cons_append, List.append_assoc]
    exact run_of_step (step_blockEntry ht hends')

theorem Denotes.sequence {items : List Part} (hne : items ≠ []) (h : ∀ i ∈ items, Denotes false i.kinds i.Is) :
    Denotes true (itemKinds items) fun n =>
      ∃ m nodes, n = .sequence m none nodes ∧ List.Forall₂ (fun i n => i.Is n) items nodes := by
  obtain ⟨i, items, rfl⟩ := List.exists_cons_of_ne_nil hne
  refine ⟨⟨.blockEntry, i.kinds ++ itemKinds items, rfl, rfl, fun _ => rfl⟩, fun handles acc goals l rest hl hr => ?_⟩
  obtain ⟨t, l', rfl, ht, -⟩ := List.map_eq_cons_iff.mp hl
  obtain ⟨events, nodes, m, hPs, hbs, hall, hrun⟩ := run_items h handles
    (⟨.sequenceStart none none, t.start⟩ :: acc) goals hl (hr rfl)
  refine ⟨_, _, ⟨t.start, nodes, rfl, hPs⟩, ?_, .sequence t.start m hall, ?_⟩
  · simpa [Node.bare, Node.bareItems_iff] using hbs
  · rw [List.cons_append, run_of_step (step_indentless ht)]
    simpa using hrun

def memberKinds (f : List Char × Part) : List Token.Kind :=
  .key :: .scalar f.1 .plain :: .value :: f.2.kinds

def recordKinds (fields : List (List Char × Part)) : List Token.Kind :=
  .blockMappingStart :: (fields.flatMap memberKinds ++ [.blockEnd])

def IsMember (f : List Char × Part) (e : Node × Node) : Prop :=
  (∃ m, e.1 = .scalar m none f.1 .plain) ∧ f.2.Is e.2

theorem kind_ne_blockEntry_of_members {fields : List (List Char × Part)} {l rest : List Token}
    (hl : l.map Token.kind = fields.flatMap memberKinds ++ [.blockEnd]) :
    ∀ t ∈ (l ++ rest).head?, t.kind ≠ .blockEntry := by
  obtain ⟨t, l', rfl, ht⟩ : ∃ t l', l = t :: l' ∧ (t.kind = .key ∨ t.kind = .blockEnd) := by
    cases fields with
    | nil =>
      obtain ⟨t, rfl, ht⟩ := List.map_eq_singleton_iff.mp hl
      exact ⟨t, [], rfl, .inr ht⟩
    | cons f fields =>
      obtain ⟨t, l', rfl, ht, -⟩ := List.map_eq_cons_iff.mp hl
      exact ⟨t, l', rfl, .inl ht⟩
  rintro _ ⟨⟩
  rcases ht with ht | ht <;> simp [ht]

theorem run_members {fields : List (List Char × Part)} (h : ∀ f ∈ fields, Denotes true f.2.kinds f.2.Is)
    (handles : Handles) (acc : List Event) (goals : List Goal) (opened : Mark) {l : List Token} (rest : List Token)
    (hl : l.map Token.kind = fields.flatMap memberKinds ++ [.blockEnd]) :
    ∃ events entries m, List.Forall₂ IsMember fields entries ∧ (∀ e ∈ entries, e.1.bare ∧ e.2.bare) ∧
      BuildsAll events (entries.flatMap fun e => [e.1, e.2]) ∧
      run handles acc (.blockKey opened :: goals) ⟨l ++ rest, none⟩ =
        run handles (⟨.mappingEnd, m⟩ :: (events.reverse ++ acc)) goals ⟨rest, none⟩ := by
  induction fields generalizing l acc with
  | nil =>
    obtain ⟨t, rfl, ht⟩ := List.map_eq_singleton_iff.mp hl
    exact ⟨[], [], t.start, .nil, by simp, .nil, run_of_step (step_blockMappingEnd ht)⟩
  | cons f fields ih =>
    rw [List.flatMap_cons, List.append_assoc] at hl
    obtain ⟨tk, l', rfl, htk, hl'⟩ := List.map_eq_cons_iff.mp hl
    obtain ⟨ts, l', rfl, hts, hl'⟩ := List.map_eq_cons_iff.mp hl'
    obtain ⟨tv, l', rfl, htv, hl'⟩ := List.map_eq_cons_iff.mp hl'
    obtain ⟨l₁, l₂, rfl, hl₁, hl₂⟩ := List.map_eq_append_iff.mp hl'
    have hf : Denotes true f.2.kinds f.2.Is := h f List.mem_cons_self
    obtain ⟨kind, later, hk, hends, -⟩ := hf.starts
    obtain ⟨u, l₃, rfl, hu, hl₃⟩ := List.map_eq_cons_iff.mp (hl₁.trans hk)
    obtain ⟨events, node, hP, hb, hbuilds, hrun⟩ :=
      hf.reads handles (⟨.scalar none none f.1 .plain, ts.start⟩ :: acc) (.blockKey opened :: goals) (u :: l₃) (l₂ ++ rest)
        hl₁ fun _ => kind_ne_blockEntry_of_members hl₂
    obtain ⟨events', entries, m, hPs, hbs, hall, hrun'⟩ := ih (fun g hg => h g (List.mem_cons_of_mem f hg))
      (events.reverse ++ ⟨.scalar none none f.1 .plain, ts.start⟩ :: acc) hl₂
    refine ⟨⟨.scalar none none f.1 .plain, ts.start⟩ :: (events ++ events'),
      (.scalar ts.start none f.1 .plain, node) :: entries, m, .cons ⟨⟨ts.start, rfl⟩, hP⟩ hPs,
      List.forall_mem_cons.mpr ⟨⟨rfl, hb⟩, hbs⟩, .cons (.scalar ts.start f.1 .plain) (.cons hbuilds hall), ?_⟩
    have hkey : run handles acc (.blockKey opened :: goals) ⟨tk :: ts :: tv :: (u :: l₃ ++ l₂) ++ rest, none⟩ =
        run handles (⟨.scalar none none f.1 .plain, ts.start⟩ :: acc) (.node true true :: .blockKey opened :: goals)
          ⟨u :: l₃ ++ (l₂ ++ rest), none⟩ := by
      rw [List.cons_append, List.cons_append, List.cons_append, List.append_assoc,
        run_of_step (step_blockKey htk (by rw [hts]; rfl)), List.cons_append, run_of_step (step_scalar hts)]
      exact run_of_step (step_blockValue htv (by rw [hu]; exact hends))
    rw [hkey, hrun, hrun']
    simp

theorem Denotes.record {fields : List (List Char × Part)} (h : ∀ f ∈ fields, Denotes true f.2.kinds f.2.Is) :
    Denotes indentless (recordKinds fields) fun n => ∃ m entries, n = .mapping m none entries ∧
      List.Forall₂ IsMember fields entries := by
  refine ⟨⟨.blockMappingStart, _, rfl, rfl, by simp⟩, fun handles acc goals l rest hl _ => ?_⟩
  obtain ⟨t, l', rfl, ht, hl'⟩ := List.map_eq_cons_iff.mp hl
  obtain ⟨events, entries, m, hPs, hbs, hall, hrun⟩ := run_members h handles
    (⟨.mappingStart none none, t.start⟩ :: acc) goals t.start rest hl'
  refine ⟨_, _, ⟨t.start, entries, rfl, hPs⟩, ?_, .mapping t.start m hall, ?_⟩
  · simpa [Node.bare, Node.bareEntries_iff] using hbs
  · rw [List.cons_append, run_of_step (step_blockMapping ht)]
    simpa using hrun

theorem ofEvents_of_builds (h : Builds events node) : (Tree.ofEvents { list := events }).root = node ∧
    (Tree.ofEvents { list := events }).error = none ∧ (Tree.ofEvents { list := events }).more = false := by
  obtain ⟨n, hn⟩ := h {} []
  rw [List.append_nil] at hn
  rw [Tree.ofEvents, hn]
  exact ⟨rfl, rfl, rfl⟩

theorem tree_of_record {fields : List (List Char × Part)} (h : ∀ f ∈ fields, Denotes true f.2.kinds f.2.Is)
    {l : List Token} (hl : l.map Token.kind = recordKinds fields ++ [.streamEnd]) {t : Tree}
    (ht : Tree.ofEvents (Events.ofTokens ⟨l, none⟩) = t) :
    t.error = none ∧ t.more = false ∧ t.root.bare ∧ ∃ m entries, t.root = .mapping m none entries ∧ List.Forall₂ IsMember fields entries := by
  obtain ⟨l', last, rfl, hl', hlast⟩ := List.map_eq_append_iff.mp hl
  obtain ⟨e, rfl, he⟩ := List.map_eq_singleton_iff.mp hlast
  obtain ⟨first, l₁, rfl, hfirst, -⟩ := List.map_eq_cons_iff.mp hl'
  have hd : Denotes false (recordKinds fields) _ := .record h
  obtain ⟨events, node, hP, hb, hbuilds, hrun⟩ := hd.reads .standard [] [] (first :: l₁) [e] hl' (by simp)
  have hevents : Events.ofTokens ⟨first :: l₁ ++ [e], none⟩ = { list := events } := by
    have hgoals : run .standard [] [.node true false] ⟨first :: l₁ ++ [e], none⟩ = (events, .ok ⟨[e], none⟩) := by
      rw [hrun, run, List.append_nil, List.reverse_reverse]
    have hclose : Events.close events ⟨[e], none⟩ = { list := events } := by
      simp [Events.close, Tokens.peek, he, Events.hasMore]
    simp only [Events.ofTokens, List.cons_append, Tokens.peek, hfirst]
    rw [← List.cons_append]
    simp only [Directives.isDirective, Events.ofGoals, hgoals, hclose]
    rfl
  obtain ⟨hroot, herror, hmore⟩ := ofEvents_of_builds hbuilds
  rw [← ht, hevents, hroot]
  exact ⟨herror, hmore, hb, hP⟩

end BraceParams.Yaml
