import BraceParams.Yaml.Grammar

namespace BraceParams.Yaml.Goal

/-- A step that takes no token replaces its goal by goals of less weight; a token outweighs what a step
that takes it can add. -/
def weight : Goal → Nat
  | .node .. => 2
  | .blockSequence _ => 1
  | .indentlessSequence => 1
  | .blockKey _ => 1
  | .blockValue _ => 2
  | .flowSequence first _ => if first then 4 else 1
  | .pairKey => 5
  | .pairValue => 2
  | .pairEnd => 1
  | .flowKey first _ => if first then 5 else 1
  | .flowValue _ => 2
  | .flowNoValue _ => 2

@[simp]
def weights : List Goal → Nat
  | [] => 0
  | goal :: goals => goal.weight + weights goals

@[simp]
theorem weights_append (goals rest : List Goal) :
    weights (goals ++ rest) = weights goals + weights rest := by
  induction goals with
  | nil => simp
  | cons goal goals ih => simp [ih, Nat.add_assoc]

def load (goals : List Goal) (ts : Tokens) : Nat :=
  5 * ts.count + weights goals

theorem load_append (goals rest : List Goal) (ts : Tokens) :
    load (goals ++ rest) ts = load goals ts + weights rest := by
  rw [load, load, weights_append, Nat.add_assoc]

/-- What an outcome leaves to read weighs less than the tokens `ts` and `n` more. -/
def Within (ts : Tokens) (n : Nat) : Outcome → Prop
  | .error _ => True
  | .ok (_, goals, ts') => load goals ts' < 5 * ts.count + n

namespace Within

variable {ts ts' : Tokens} {t : Token} {n k : Nat} {o o' : Outcome} {events : List Event}
  {goals : List Goal}

theorem error (e : SyntaxError) : Within ts n (.error e) := trivial

theorem keep (h : weights goals < n) : Within ts n (.ok (events, goals, ts)) :=
  Nat.add_lt_add_left h (5 * ts.count)

theorem mono (h : Within ts' k o) (hk : 5 * ts'.count + k ≤ 5 * ts.count + n) : Within ts n o := by
  cases o with
  | error e => trivial
  | ok left => exact Nat.lt_of_lt_of_le h hk

theorem take (ht : ts.peek = .ok t) (hk : t.kind ≠ .streamEnd) (h : Within ts.drop (n + 5) o) :
    Within ts n o := by
  have hc := Tokens.count_drop ht hk
  exact h.mono (by omega)

theorem choose {c : Prop} [Decidable c] (h : c → Within ts n o) (h' : ¬c → Within ts n o') :
    Within ts n (if c then o else o') := by
  split
  case isTrue hc => exact h hc
  case isFalse hc => exact h' hc

theorem look {next : Token → Outcome} (h : ∀ t, ts'.peek = .ok t → Within ts n (next t)) :
    Within ts n (match ts'.peek with | .error e => .error e | .ok t => next t) := by
  cases ht : ts'.peek with
  | error e => trivial
  | ok t => exact h t ht

end Within

open Within

theorem properties_count {ts : Tokens} {p : Properties} (h : properties ts = .ok p) :
    p.tokens.count ≤ ts.count := by
  have h₁ := ts.count_drop_le
  have h₂ := ts.drop.count_drop_le
  revert h
  fun_cases properties ts with
  | case1 e => nofun
  | case2 t _ name _ e => nofun
  | case3 t _ name _ u => rintro ⟨⟩; exact Nat.le_trans h₂ h₁
  | case4 t _ name _ u => rintro ⟨⟩; exact h₁
  | case5 t _ handle suffix _ e => nofun
  | case6 t _ handle suffix _ u => rintro ⟨⟩; exact Nat.le_trans h₂ h₁
  | case7 t _ handle suffix _ u => rintro ⟨⟩; exact h₁
  | case8 t => rintro ⟨⟩; exact Nat.le_refl _

variable {ts : Tokens} {t : Token} {n : Nat}

theorem content_within (block indentless : Bool) (p : Properties) (tag : Option Octets) :
    Within p.tokens 2 (content block indentless p tag) := by
  refine look fun t ht => ?_
  split
  -- a scalar, a flow sequence, a flow mapping, and what is told apart by where it stands
  case h_1 text style hk => exact take ht (by simp [hk]) (keep (by simp))
  case h_2 hk => exact take ht (by simp [hk]) (keep (by simp [weight]))
  case h_3 hk => exact take ht (by simp [hk]) (keep (by simp [weight]))
  case h_4 =>
    refine choose (fun _ => keep (by simp [weight])) fun _ => ?_
    refine choose (fun hk => take ht (by simp [hk.1]) (keep (by simp [weight]))) fun _ => ?_
    refine choose (fun hk => take ht (by simp [hk.1]) (keep (by simp [weight]))) fun _ => ?_
    exact choose (fun _ => keep (by simp)) fun _ => error _

theorem nodeStep_within (handles : Handles) (block indentless : Bool) (ts : Tokens) :
    Within ts 2 (nodeStep handles block indentless ts) := by
  refine look fun t ht => ?_
  split
  case h_1 name hk => exact take ht (by simp [hk]) (keep (by simp))
  case h_2 =>
    cases hp : properties ts with
    | error e => trivial
    | ok p =>
      refine look fun _ _ => ?_
      cases p.resolve handles with
      | error e => trivial
      | ok tag =>
        have hc := properties_count hp
        exact (content_within block indentless p tag).mono (by omega)

theorem orEmpty_within {ends : Token.Kind → Bool} {node : Goal} {rest : List Goal} {m : Mark}
    (h : node.weight + weights rest < n) : Within ts n (orEmpty ends node rest ts m) := by
  refine look fun _ _ => choose (fun _ => keep ?_) fun _ => keep h
  exact Nat.lt_of_le_of_lt (Nat.le_add_left _ _) h

theorem flowPart_within {ends : Token → Prop} [DecidablePred ends] {goal : Goal} (h : 2 + goal.weight < n) :
    Within ts n (match ts.peek with
      | .error e => .error e
      | .ok u =>
        if ends u then .ok ([.empty u.start], [goal], ts) else .ok ([], [.node false false, goal], ts)) := by
  refine look fun u _ => choose (fun _ => keep ?_) fun _ => keep h
  exact Nat.lt_of_le_of_lt (Nat.le_add_left _ _) h

theorem flowSequenceEntry_within (opened : Mark) (ht : ts.peek = .ok t) :
    Within ts 4 (flowSequenceEntry opened t ts) := by
  refine choose (fun hk => take ht (by simp [hk]) (keep (by simp [weight]))) fun _ => ?_
  refine choose (fun hk => take ht (by simp [hk]) (keep (by simp))) fun _ => ?_
  exact keep (by simp [weight])

theorem flowMappingEntry_within (opened : Mark) (ht : ts.peek = .ok t) :
    Within ts 5 (flowMappingEntry opened t ts) := by
  refine choose (fun hk => take ht (by simp [hk]) (flowPart_within (by simp [weight]))) fun _ => ?_
  refine choose (fun hk => take ht (by simp [hk]) (keep (by simp))) fun _ => ?_
  exact keep (by simp [weight])

/-- Behind its first entry a collection weighs less: its end or a separator is taken in front of the next one. -/
theorem flowEntries_within {entry : Token → Tokens → Outcome} {close : Token.Kind} {first : Bool}
    {e : Token → SyntaxError} (hn : n ≤ 5)
    (hentry : ∀ {ts t}, ts.peek = .ok t → Within ts n (entry t ts))
    (hclose : ∀ {ts t}, ts.peek = .ok t → t.kind = close → Within ts 1 (entry t ts)) :
    Within ts (if first then n else 1) (match ts.peek with
      | .error e => .error e
      | .ok t =>
        if first ∨ t.kind = close then entry t ts
        else if t.kind = .flowEntry then
          match ts.drop.peek with
          | .error e => .error e
          | .ok u => entry u ts.drop
        else .error (e t)) := by
  refine look fun t ht => ?_
  cases first with
  | true => exact choose (fun _ => hentry ht) fun h => absurd (.inl rfl) h
  | false =>
    refine choose (fun h => hclose ht (h.resolve_left Bool.false_ne_true)) fun _ => ?_
    refine choose (fun hk => take ht (by simp [hk]) (look fun u hu => ?_)) fun _ => error _
    exact (hentry hu).mono (Nat.add_le_add_left (Nat.le_succ_of_le hn) _)

variable (handles : Handles)

theorem blockSequence_within (opened : Mark) :
    Within ts (weight (.blockSequence opened)) (step handles (.blockSequence opened) ts) := by
  refine look fun t ht => ?_
  refine choose (fun hk => take ht (by simp [hk]) (orEmpty_within (by simp [weight]))) fun _ => ?_
  exact choose (fun hk => take ht (by simp [hk]) (keep (by simp [weight]))) fun _ => error _

theorem indentlessSequence_within :
    Within ts (weight .indentlessSequence) (step handles .indentlessSequence ts) := by
  refine look fun t ht => ?_
  refine choose (fun hk => take ht (by simp [hk]) (orEmpty_within (by simp [weight]))) fun _ => ?_
  exact keep (by simp [weight])

theorem blockKey_within (opened : Mark) :
    Within ts (weight (.blockKey opened)) (step handles (.blockKey opened) ts) := by
  refine look fun t ht => ?_
  refine choose (fun hk => take ht (by simp [hk]) (orEmpty_within (by simp [weight]))) fun _ => ?_
  exact choose (fun hk => take ht (by simp [hk]) (keep (by simp [weight]))) fun _ => error _

theorem blockValue_within (opened : Mark) :
    Within ts (weight (.blockValue opened)) (step handles (.blockValue opened) ts) := by
  refine look fun t ht => ?_
  refine choose (fun hk => take ht (by simp [hk]) (orEmpty_within (by simp [weight]))) fun _ => ?_
  exact keep (by simp [weight])

theorem flowSequence_within (first : Bool) (opened : Mark) :
    Within ts (weight (.flowSequence first opened)) (step handles (.flowSequence first opened) ts) := by
  refine flowEntries_within (by decide) (flowSequenceEntry_within opened) fun ht hk => ?_
  rw [flowSequenceEntry, if_neg (by simp [hk]), if_pos hk]
  exact take ht (by simp [hk]) (keep (by simp))

theorem pairKey_within : Within ts (weight .pairKey) (step handles .pairKey ts) := by
  refine look fun t ht => choose (fun hk => take ht ?_ (keep (by simp [weight]))) fun _ => ?_
  · intro he
    simp [he, endsFlowPart] at hk
  · exact keep (by simp [weight])

theorem pairValue_within : Within ts (weight .pairValue) (step handles .pairValue ts) := by
  refine look fun t ht => choose (fun hk => take ht (by simp [hk]) ?_) fun _ => keep (by simp [weight])
  exact flowPart_within (by simp [weight])

theorem pairEnd_within : Within ts (weight .pairEnd) (step handles .pairEnd ts) :=
  look fun _ _ => keep (by simp [weight])

theorem flowKey_within (first : Bool) (opened : Mark) :
    Within ts (weight (.flowKey first opened)) (step handles (.flowKey first opened) ts) := by
  refine flowEntries_within (by decide) (flowMappingEntry_within opened) fun ht hk => ?_
  rw [flowMappingEntry, if_neg (by simp [hk]), if_pos hk]
  exact take ht (by simp [hk]) (keep (by simp))

theorem flowValue_within (opened : Mark) :
    Within ts (weight (.flowValue opened)) (step handles (.flowValue opened) ts) := by
  refine look fun t ht => choose (fun hk => take ht (by simp [hk]) ?_) fun _ => keep (by simp [weight])
  exact flowPart_within (by simp [weight])

theorem flowNoValue_within (opened : Mark) :
    Within ts (weight (.flowNoValue opened)) (step handles (.flowNoValue opened) ts) :=
  look fun _ _ => keep (by simp [weight])

theorem step_within (goal : Goal) (ts : Tokens) : Within ts goal.weight (goal.step handles ts) := by
  cases goal with
  | node block indentless => exact nodeStep_within handles block indentless ts
  | blockSequence opened => exact blockSequence_within handles opened
  | indentlessSequence => exact indentlessSequence_within handles
  | blockKey opened => exact blockKey_within handles opened
  | blockValue opened => exact blockValue_within handles opened
  | flowSequence first opened => exact flowSequence_within handles first opened
  | pairKey => exact pairKey_within handles
  | pairValue => exact pairValue_within handles
  | pairEnd => exact pairEnd_within handles
  | flowKey first opened => exact flowKey_within handles first opened
  | flowValue opened => exact flowValue_within handles opened
  | flowNoValue opened => exact flowNoValue_within handles opened

theorem step_load {handles : Handles} {goal : Goal} {ts ts' : Tokens} {events : List Event}
    {goals : List Goal} (h : goal.step handles ts = .ok (events, goals, ts')) :
    load goals ts' < 5 * ts.count + goal.weight := by
  have hw := step_within handles goal ts
  rwa [h] at hw

def run (handles : Handles) (events : List Event) (goals : List Goal) (ts : Tokens) :
    List Event × Except SyntaxError Tokens :=
  match goals with
  | [] => (events.reverse, .ok ts)
  | goal :: goals =>
    match _taken : goal.step handles ts with
    | .error e => (events.reverse, .error e)
    | .ok (more, first, ts') => run handles (more.reverse ++ events) (first ++ goals) ts'
termination_by load goals ts
decreasing_by
  have := step_load _taken
  rw [load_append]
  simp only [load, weights] at this ⊢
  omega

end BraceParams.Yaml.Goal
