import Interpose.Splice
import Mathlib.Data.List.Basic

/-!
How a point finds its anchor. The first alternative with enough windows for the policy of the point
decides: its window is the anchor, unless the point wants a single one and there are more. So the
policies agree where they can, and fallbacks behind an alternative that decides do not count.
-/

set_option autoImplicit false
set_option relaxedAutoImplicit false

namespace Interpose

def Occurrence.needed : Occurrence → Nat
  | .unique | .first => 1
  | .nth n => n + 1

/-- The alternatives of a set, and behind them those of another one. -/
def PatternSet.followedBy (ps more : PatternSet) : PatternSet :=
  ⟨ps.primary, ps.fallbacks ++ more.alternatives⟩

theorem PatternSet.alternatives_followedBy (ps more : PatternSet) :
    (ps.followedBy more).alternatives = ps.alternatives ++ more.alternatives := rfl

theorem PatternSet.describe_followedBy (ps more : PatternSet) :
    (ps.followedBy more).describe = ps.describe ++ ", " ++ more.describe := by
  simp only [describe, alternatives_followedBy, List.map_append]
  exact String.intercalate_append_of_ne_nil (by simp [alternatives]) (by simp [alternatives])

namespace Point

variable {p : Point} {s : Stream} {pattern : Pattern} {patterns front back : List Pattern}
  {spans : List Span} {span : Span} {anchor : Stream.Anchor} {e : SpliceError} {index : Nat}

def under (p : Point) (occurrence : Occurrence) : Point := { p with occurrence }

def anchoredOn (p : Point) (anchors : PatternSet) : Point := { p with anchors }

/-- An alternative has as many windows as the policy of a point takes. -/
def Enough (p : Point) (s : Stream) (pattern : Pattern) : Prop :=
  p.occurrence.needed ≤ (s.findAll pattern).length

instance (p : Point) (s : Stream) (pattern : Pattern) : Decidable (p.Enough s pattern) :=
  inferInstanceAs (Decidable (_ ≤ _))

/-- An alternative has several windows, and the point wants a single one. -/
def Ambiguous (p : Point) (s : Stream) (pattern : Pattern) : Prop :=
  p.occurrence = .unique ∧ 1 < (s.findAll pattern).length

/-- The first alternative of a point that has enough windows, with its index. -/
def Decides (p : Point) (s : Stream) (index : Nat) (pattern : Pattern) : Prop :=
  ∃ front back, p.anchors.alternatives = front ++ pattern :: back ∧ front.length = index ∧
    (∀ other ∈ front, ¬p.Enough s other) ∧ p.Enough s pattern

/-! ### One alternative -/

theorem accept_none_iff :
    p.accept pattern (s.findAll pattern) = .ok none ↔ ¬p.Enough s pattern := by
  unfold accept Enough
  cases p.occurrence with
  | unique =>
    dsimp only [Occurrence.needed]
    split
    · simp only [reduceCtorEq, false_iff]
      omega
    · simp
  | first => simp [Occurrence.needed]
  | nth n =>
    simp only [Occurrence.needed, Except.ok.injEq, List.getElem?_eq_none_iff, Nat.succ_le_iff,
      Nat.not_lt]

theorem accept_some_iff :
    p.accept pattern (s.findAll pattern) = .ok (some span) ↔
      (s.findAll pattern)[p.occurrence.needed - 1]? = some span ∧ ¬p.Ambiguous s pattern := by
  unfold accept Ambiguous
  cases p.occurrence with
  | unique =>
    dsimp only [Occurrence.needed]
    split
    · next several => simp [several]
    · next single =>
      simp only [Except.ok.injEq, Nat.sub_self, List.head?_eq_getElem?, true_and, single,
        not_false_eq_true, and_true]
  | first => simp [Occurrence.needed, List.head?_eq_getElem?]
  | nth n => simp [Occurrence.needed]

theorem accept_error_iff :
    p.accept pattern (s.findAll pattern) = .error e ↔ p.Ambiguous s pattern ∧
      e = .ambiguousMatch p.name pattern.name (s.findAll pattern).length := by
  unfold accept Ambiguous
  cases p.occurrence with
  | unique =>
    dsimp only
    split
    · next several => simp [several, eq_comm]
    · next single => simp [single]
  | first | nth n => simp

/-! ### One alternative after the other -/

theorem locateAmong_append (poor : ∀ other ∈ front, ¬p.Enough s other) :
    p.locateAmong s index (front ++ back) = p.locateAmong s (index + front.length) back := by
  induction front generalizing index with
  | nil => rfl
  | cons first front ih =>
    have passed := accept_none_iff.mpr (poor first List.mem_cons_self)
    rw [List.cons_append, locateAmong, passed]
    dsimp only
    rw [ih fun other member => poor other (List.mem_cons_of_mem _ member), List.length_cons]
    congr 1
    omega

theorem locateAmong_poor (poor : ∀ other ∈ patterns, ¬p.Enough s other) :
    p.locateAmong s index patterns = .error (.patternNotFound p.name p.anchors.describe) := by
  have passed : p.locateAmong s index (patterns ++ []) =
      p.locateAmong s (index + patterns.length) [] := locateAmong_append poor
  rwa [List.append_nil] at passed

theorem first_enough (p : Point) (s : Stream) (patterns : List Pattern) :
    (∀ other ∈ patterns, ¬p.Enough s other) ∨
    ∃ front pattern back, patterns = front ++ pattern :: back ∧
      (∀ other ∈ front, ¬p.Enough s other) ∧ p.Enough s pattern := by
  cases found : patterns.find? fun pattern => p.Enough s pattern with
  | none =>
    left
    simpa using found
  | some pattern =>
    obtain ⟨enough, front, back, rfl, poor⟩ := List.find?_eq_some_iff_append.mp found
    right
    exact ⟨front, pattern, back, rfl, by simpa using poor, by simpa using enough⟩

/-- An alternative with enough windows that is too often there ends the search, and any other gives
its window. -/
theorem locateAmong_enough (enough : p.Enough s pattern) :
    (p.Ambiguous s pattern ∧ p.locateAmong s index (pattern :: back) =
      .error (.ambiguousMatch p.name pattern.name (s.findAll pattern).length)) ∨
    ∃ span, ¬p.Ambiguous s pattern ∧ (s.findAll pattern)[p.occurrence.needed - 1]? = some span ∧
      p.locateAmong s index (pattern :: back) = .ok ⟨span, index, pattern.name⟩ := by
  match accepted : p.accept pattern (s.findAll pattern) with
  | .error e =>
    obtain ⟨several, rfl⟩ := accept_error_iff.mp accepted
    exact .inl ⟨several, by rw [locateAmong, accepted]⟩
  | .ok none => exact absurd enough (accept_none_iff.mp accepted)
  | .ok (some span) =>
    obtain ⟨there, single⟩ := accept_some_iff.mp accepted
    exact .inr ⟨span, single, there, by rw [locateAmong, accepted]⟩

theorem Decides.locate (decides : p.Decides s index pattern) :
    (p.Ambiguous s pattern ∧ p.locate s =
      .error (.ambiguousMatch p.name pattern.name (s.findAll pattern).length)) ∨
    ∃ span, ¬p.Ambiguous s pattern ∧ (s.findAll pattern)[p.occurrence.needed - 1]? = some span ∧
      p.locate s = .ok ⟨span, index, pattern.name⟩ := by
  obtain ⟨front, back, whole, rfl, poor, enough⟩ := decides
  rw [Point.locate, whole, locateAmong_append poor, Nat.zero_add]
  exact locateAmong_enough enough

theorem decides_or_poor (p : Point) (s : Stream) :
    (∀ pattern ∈ p.anchors.alternatives, ¬p.Enough s pattern) ∨
    ∃ index pattern, p.Decides s index pattern := by
  rcases p.first_enough s p.anchors.alternatives with poor | ⟨front, pattern, back, whole, rest⟩
  · exact .inl poor
  · exact .inr ⟨_, pattern, front, back, whole, rfl, rest⟩

theorem locate_poor (poor : ∀ pattern ∈ p.anchors.alternatives, ¬p.Enough s pattern) :
    p.locate s = .error (.patternNotFound p.name p.anchors.describe) :=
  locateAmong_poor poor

theorem locate_ok_iff : p.locate s = .ok anchor ↔ ∃ pattern,
    p.Decides s anchor.alternative pattern ∧ anchor.pattern = pattern.name ∧
      (s.findAll pattern)[p.occurrence.needed - 1]? = some anchor.span ∧
      ¬p.Ambiguous s pattern := by
  constructor
  · intro located
    rcases p.decides_or_poor s with poor | ⟨index, pattern, decides⟩
    · rw [locate_poor poor] at located
      cases located
    · rcases decides.locate with ⟨-, refused⟩ | ⟨span, single, there, found⟩
      · rw [refused] at located
        cases located
      · obtain rfl := Except.ok.inj (found.symm.trans located)
        exact ⟨pattern, decides, rfl, there, single⟩
  · rintro ⟨pattern, decides, named, there, single⟩
    rcases decides.locate with ⟨several, -⟩ | ⟨span, -, here, found⟩
    · exact absurd several single
    · obtain rfl := Option.some.inj (here.symm.trans there)
      rw [found, ← named]

theorem locate_error_iff : p.locate s = .error e ↔
    (∃ index pattern, p.Decides s index pattern ∧ p.Ambiguous s pattern ∧
      e = .ambiguousMatch p.name pattern.name (s.findAll pattern).length) ∨
    (∀ pattern ∈ p.anchors.alternatives, ¬p.Enough s pattern) ∧
      e = .patternNotFound p.name p.anchors.describe := by
  constructor
  · intro refused
    rcases p.decides_or_poor s with poor | ⟨index, pattern, decides⟩
    · exact .inr ⟨poor, Except.error.inj (refused.symm.trans (locate_poor poor))⟩
    · rcases decides.locate with ⟨several, found⟩ | ⟨span, -, -, found⟩
      · exact .inl ⟨index, pattern, decides, several, Except.error.inj (refused.symm.trans found)⟩
      · rw [found] at refused
        cases refused
  · rintro (⟨index, pattern, decides, several, rfl⟩ | ⟨poor, rfl⟩)
    · rcases decides.locate with ⟨-, found⟩ | ⟨span, single, -⟩
      · exact found
      · exact absurd several single
    · exact locate_poor poor

/-! ### Other policies -/

theorem locate_first_eq_nth (p : Point) (s : Stream) :
    (p.under .first).locate s = (p.under (.nth 0)).locate s := by
  have each : ∀ patterns index, (p.under .first).locateAmong s index patterns =
      (p.under (.nth 0)).locateAmong s index patterns := by
    intro patterns
    induction patterns with
    | nil => exact fun _ => rfl
    | cons pattern patterns ih =>
      intro index
      simp only [locateAmong, accept, under, List.head?_eq_getElem?] at ih ⊢
      rw [ih]
  exact each _ 0

theorem locate_first_of_unique (located : (p.under .unique).locate s = .ok anchor) :
    (p.under .first).locate s = .ok anchor := by
  obtain ⟨pattern, ⟨front, back, shape⟩, named, there, -⟩ := locate_ok_iff.mp located
  exact locate_ok_iff.mpr
    ⟨pattern, ⟨front, back, shape⟩, named, there, fun several => nomatch several.1⟩

theorem locate_unique (unique : p.occurrence = .unique) (located : p.locate s = .ok anchor) :
    ∃ pattern, p.Decides s anchor.alternative pattern ∧ anchor.pattern = pattern.name ∧
      s.findAll pattern = [anchor.span] := by
  obtain ⟨pattern, decides, named, there, single⟩ := locate_ok_iff.mp located
  have few : ¬1 < (s.findAll pattern).length := fun several => single ⟨unique, several⟩
  refine ⟨pattern, decides, named, ?_⟩
  rw [unique] at there
  match windows : s.findAll pattern with
  | [] => simp [windows] at there
  | [span] => simpa [windows, Occurrence.needed] using there
  | _ :: _ :: _ => simp [windows] at few

theorem Decides.alternative (decides : p.Decides s index pattern) :
    p.anchors.alternatives[index]? = some pattern := by
  obtain ⟨front, back, whole, rfl, -, -⟩ := decides
  simp [whole]

/-! ### Further alternatives -/

/-- What alternatives give behind those of another set. -/
def behind (ps : PatternSet) : Except SpliceError Stream.Anchor → Except SpliceError Stream.Anchor
  | .ok anchor => .ok { anchor with alternative := ps.alternatives.length + anchor.alternative }
  | .error (.patternNotFound point tried) =>
    .error (.patternNotFound point (ps.describe ++ ", " ++ tried))
  | .error e => .error e

theorem Decides.followed (decides : p.Decides s index pattern) (more : PatternSet) :
    (p.anchoredOn (p.anchors.followedBy more)).Decides s index pattern := by
  obtain ⟨front, back, whole, length, poor, enough⟩ := decides
  refine ⟨front, back ++ more.alternatives, ?_, length, poor, enough⟩
  simp [anchoredOn, PatternSet.alternatives_followedBy, whole]

theorem Decides.follows {more : PatternSet} (decides : (p.anchoredOn more).Decides s index pattern)
    (poor : ∀ pattern ∈ p.anchors.alternatives, ¬p.Enough s pattern) :
    (p.anchoredOn (p.anchors.followedBy more)).Decides s
      (p.anchors.alternatives.length + index) pattern := by
  obtain ⟨front, back, whole, rfl, others, enough⟩ := decides
  refine ⟨p.anchors.alternatives ++ front, back, ?_, List.length_append, ?_, enough⟩
  · rw [List.append_assoc, ← whole]
    rfl
  · intro other member
    rcases List.mem_append.mp member with one | two
    · exact poor other one
    · exact others other two

theorem locate_followed (decides : p.Decides s index pattern) (more : PatternSet) :
    (p.anchoredOn (p.anchors.followedBy more)).locate s = p.locate s := by
  rcases decides.locate with ⟨several, found⟩ | ⟨span, single, there, found⟩
  · rw [found]
    exact locate_error_iff.mpr (.inl ⟨index, pattern, decides.followed more, several, rfl⟩)
  · rw [found]
    exact locate_ok_iff.mpr ⟨pattern, decides.followed more, rfl, there, single⟩

theorem locate_behind (poor : ∀ pattern ∈ p.anchors.alternatives, ¬p.Enough s pattern)
    (more : PatternSet) : (p.anchoredOn (p.anchors.followedBy more)).locate s =
      behind p.anchors ((p.anchoredOn more).locate s) := by
  rcases (p.anchoredOn more).decides_or_poor s with also | ⟨index, pattern, decides⟩
  · have all : ∀ pattern ∈ (p.anchors.followedBy more).alternatives, ¬p.Enough s pattern := by
      intro pattern member
      rw [PatternSet.alternatives_followedBy] at member
      rcases List.mem_append.mp member with one | two
      · exact poor pattern one
      · exact also pattern two
    rw [locate_poor (p := p.anchoredOn more) also,
      locate_poor (p := p.anchoredOn (p.anchors.followedBy more)) all]
    simp only [behind, anchoredOn, PatternSet.describe_followedBy]
  · have after := decides.follows poor
    rcases decides.locate with ⟨several, found⟩ | ⟨span, single, there, found⟩
    · rw [found]
      exact locate_error_iff.mpr (.inl ⟨_, pattern, after, several, rfl⟩)
    · rw [found]
      exact locate_ok_iff.mpr ⟨pattern, after, rfl, there, single⟩

/-- The first alternative with enough windows decides, and a point refuses it only if it wants a
single window and there are several. The first window is the one with the number zero, and a single
window is the first one. Further fallbacks change nothing where an alternative decides; where none
does, they give what they give alone, with the alternatives counted and named from the primary on. -/
theorem policies_coherent (p : Point) (s : Stream) :
    (∀ anchor, p.locate s = .ok anchor ↔ ∃ pattern,
      p.Decides s anchor.alternative pattern ∧ anchor.pattern = pattern.name ∧
        (s.findAll pattern)[p.occurrence.needed - 1]? = some anchor.span ∧
        ¬p.Ambiguous s pattern) ∧
    (∀ e, p.locate s = .error e ↔
      (∃ index pattern, p.Decides s index pattern ∧ p.Ambiguous s pattern ∧
        e = .ambiguousMatch p.name pattern.name (s.findAll pattern).length) ∨
      (∀ pattern ∈ p.anchors.alternatives, ¬p.Enough s pattern) ∧
        e = .patternNotFound p.name p.anchors.describe) ∧
    (p.under .first).locate s = (p.under (.nth 0)).locate s ∧
    (∀ anchor, (p.under .unique).locate s = .ok anchor → (p.under .first).locate s = .ok anchor) ∧
    ∀ more : PatternSet,
      (∀ anchor, p.locate s = .ok anchor →
        (p.anchoredOn (p.anchors.followedBy more)).locate s = .ok anchor) ∧
      (∀ point name count, p.locate s = .error (.ambiguousMatch point name count) →
        (p.anchoredOn (p.anchors.followedBy more)).locate s =
          .error (.ambiguousMatch point name count)) ∧
      ∀ point tried, p.locate s = .error (.patternNotFound point tried) →
        (p.anchoredOn (p.anchors.followedBy more)).locate s =
          behind p.anchors ((p.anchoredOn more).locate s) := by
  refine ⟨fun anchor => locate_ok_iff, fun e => locate_error_iff, p.locate_first_eq_nth s,
    fun anchor => locate_first_of_unique, fun more => ⟨fun anchor located => ?_,
      fun point name count refused => ?_, fun point tried refused => ?_⟩⟩
  · obtain ⟨pattern, decides, -⟩ := locate_ok_iff.mp located
    rw [locate_followed decides, located]
  · rcases locate_error_iff.mp refused with ⟨index, pattern, decides, -⟩ | ⟨-, other⟩
    · rw [locate_followed decides, refused]
    · cases other
  · rcases locate_error_iff.mp refused with ⟨index, pattern, -, -, other⟩ | ⟨poor, -⟩
    · cases other
    · exact locate_behind poor more

/-- A point that watches copies, of which a method may have one only. -/
def copyPoint : PointDraft :=
  .make .augment "watch" ⟨"Capable"⟩ ⟨⟨"copy", [⟨0, .opcode .dup⟩]⟩, []⟩

theorem return_found_behind_copy : ∃ s p,
    Stream.ofBody ⟨[.ldarg 0, .pop, .ret], .empty, false⟩ = .ok s ∧ copyPoint.build = .ok p ∧
    p.locate s = .error (.patternNotFound "watch" "copy") ∧
    (p.anchoredOn (p.anchors.followedBy ⟨⟨"return", [⟨0, .opcode .ret⟩]⟩, []⟩)).locate s =
      .ok ⟨⟨⟨2⟩, ⟨2⟩⟩, 1, "return"⟩ := by
  obtain ⟨s, loaded⟩ : ∃ s, Stream.ofBody ⟨[.ldarg 0, .pop, .ret], .empty, false⟩ = .ok s :=
    ⟨_, rfl⟩
  obtain ⟨p, built⟩ : ∃ p, copyPoint.build = .ok p := ⟨_, rfl⟩
  obtain ⟨-, -, -, -, further⟩ := policies_coherent p s
  have missing : p.locate s = .error (.patternNotFound "watch" "copy") := by
    cases loaded
    cases built
    rfl
  refine ⟨s, p, loaded, built, missing, ((further _).2.2 _ _ missing).trans ?_⟩
  cases loaded
  cases built
  rfl

end Point

end Interpose
