import Mathlib
import Siteworks.Layout.Edit
import Siteworks.Proofs.Texts
import Siteworks.Proofs.Theme.Fonts

/-!
# Class attributes that are written again

A class attribute is found where it first occurs in a line. If its classes are replaced by those of
the body element, it is found at the same place with the new classes, as long as no class holds a
backquote. Naming one font after another then leaves the classes that naming the other one alone
would leave, and the line keeps its role in the layout.
-/

namespace Siteworks

namespace Text

variable {part text before after : List Char} {c : Char}

/-- A text without a character is part of two texts around that character if it is part of one. -/
theorem contains_append_cons (h : c ∉ part) :
    contains part (before ++ c :: after) = (contains part before || contains part after) := by
  rw [Bool.eq_iff_iff, Bool.or_eq_true]
  simp only [contains_iff_isInfix]
  constructor
  · rintro ⟨start, rest, hcut⟩
    rw [List.append_assoc] at hcut
    rcases List.append_eq_append_iff.mp hcut with ⟨between, rfl, htail⟩ | ⟨between, rfl, htail⟩
    · rcases List.append_eq_append_iff.mp htail with ⟨gap, rfl, -⟩ | ⟨gap, rfl, hgap⟩
      · exact Or.inl ⟨start, gap, by simp⟩
      · cases gap with
        | nil => exact Or.inl ⟨start, [], by simp⟩
        | cons d gap =>
          obtain ⟨rfl, -⟩ := List.cons.inj hgap
          exact absurd (List.mem_append_right _ List.mem_cons_self) h
    · cases between with
      | cons d between =>
        obtain ⟨-, rfl⟩ := List.cons.inj htail
        exact Or.inr ⟨between, rest, by simp⟩
      | nil =>
        cases part with
        | nil => exact Or.inl List.nil_infix
        | cons d part =>
          obtain ⟨rfl, -⟩ := List.cons.inj htail
          exact absurd List.mem_cons_self h
  · rintro (hpart | hpart)
    · exact hpart.trans (List.prefix_append _ _).isInfix
    · exact hpart.trans ((List.suffix_cons _ _).trans (List.suffix_append _ _)).isInfix

/-- A text with a character that another one lacks is no part of it. -/
theorem contains_eq_false (hc : c ∈ part) (h : c ∉ text) : contains part text = false := by
  rw [← Bool.not_eq_true, contains_iff_isInfix]
  exact fun hpart => h (hpart.subset hc)

/-- What is told by the texts around each character of other classes is told by the runs. -/
theorem eq_any_runs {inClass : Char → Bool} {p : List Char → Bool} (hnil : p [] = false)
    (hcut : ∀ before c after, inClass c = false → p (before ++ c :: after) = (p before || p after))
    (text : List Char) : p text = (runs inClass text).any p := by
  have hpieces : ∀ text : List Char, p text = (text.splitOnP fun c => !inClass c).any p := by
    intro text
    induction hlength : text.length using Nat.strong_induction_on generalizing text with
    | _ n ih =>
      subst hlength
      by_cases hall : ∀ c ∈ text, inClass c = true
      · rw [List.splitOnP_eq_singleton (fun c hc => by simp [hall c hc])]
        simp
      · -- cut at the first character of another class
        have hrest : text.dropWhile inClass ≠ [] := by
          simpa [List.dropWhile_eq_nil_iff] using hall
        obtain ⟨d, rest, hd⟩ := List.exists_cons_of_ne_nil hrest
        have hjoin : text = text.takeWhile inClass ++ d :: rest := by
          rw [← hd, List.takeWhile_append_dropWhile]
        have hout : inClass d = false := by
          have := List.head_dropWhile_not inClass hrest
          simpa [hd] using this
        have hinside : ∀ c ∈ text.takeWhile inClass, inClass c = true :=
          fun c hc => List.mem_takeWhile_imp hc
        have hlt : rest.length < text.length := by
          rw [hjoin]
          simp
          omega
        rw [hjoin, hcut _ _ _ hout, List.splitOnP_append_cons _ _ (by simp [hout]),
          List.splitOnP_eq_singleton (fun c hc => by simp [hinside c hc]), ih _ hlt rest rfl]
        simp
  rw [hpieces, runs]
  induction text.splitOnP fun c => !inClass c with
  | nil => rfl
  | cons piece pieces ih => cases piece <;> simp [hnil, ih]

/-- A text of one class is part of another text if it is part of one of its runs. -/
theorem contains_eq_any_runs {inClass : Char → Bool} (hne : part ≠ [])
    (hpart : ∀ c ∈ part, inClass c = true) (text : List Char) :
    contains part text = (runs inClass text).any (contains part) := by
  refine eq_any_runs ?_ (fun before c after hc => contains_append_cons fun hmem => ?_) text
  · rw [contains, List.isEmpty_eq_false_iff]
    exact hne
  · rw [hpart c hmem] at hc
    cases hc

end Text

namespace Layout

variable {line before value follow quoted text : List Char}

/-! ## Finding the attribute -/

/-- The two ways to write the value of a class attribute, with the value. -/
inductive Quotes : List Char → List Char → Prop
  /-- In double quotes. -/
  | plain {value : List Char} : '"' ∉ value → Quotes ('"' :: (value ++ ['"'])) value
  /-- In backquotes and braces. -/
  | template {value : List Char} : '\x60' ∉ value →
    Quotes ('\x7b' :: '\x60' :: (value ++ ['\x60', '\x7d'])) value

/-- What stands before a character and after it can be read off if the former lacks it. -/
theorem takeWhile_dropWhile_append_cons {c : Char} (h : c ∉ value) (rest : List Char) :
    (value ++ c :: rest).takeWhile (· ≠ c) = value ∧
      (value ++ c :: rest).dropWhile (· ≠ c) = c :: rest := by
  have hvalue : ∀ d ∈ value, decide (d ≠ c) = true := by
    intro d hd
    rw [decide_eq_true_eq]
    rintro rfl
    exact h hd
  constructor
  · rw [List.takeWhile_append_of_pos hvalue]
    simp
  · rw [List.dropWhile_append_of_pos hvalue]
    simp

/-- A class attribute starts a text if its name and a quoted value do. -/
theorem classValue?_eq_some_iff : classValue? text = some (value, follow) ↔
    ∃ quoted, Quotes quoted value ∧ text = "className=".toList ++ (quoted ++ follow) := by
  constructor
  · intro found
    have hcut : ∀ (c : Char) (rest tail : List Char), rest.dropWhile (· ≠ c) = c :: tail →
        c ∉ rest.takeWhile (· ≠ c) ∧ rest = rest.takeWhile (· ≠ c) ++ c :: tail := by
      intro c rest tail hdrop
      refine ⟨fun hmem => by simpa using List.mem_takeWhile_imp hmem, ?_⟩
      rw [← hdrop, List.takeWhile_append_dropWhile]
    unfold classValue? at found
    split at found
    · cases found
    next rest hname =>
      rw [Text.isPrefixOf?_eq_some_iff.mp hname]
      split at found
      next rest =>
        split at found
        next tail hdrop =>
          cases found
          obtain ⟨hnot, hrest⟩ := hcut _ _ _ hdrop
          refine ⟨_, .plain hnot, ?_⟩
          conv_lhs => rw [hrest]
          simp
        · cases found
      next rest =>
        split at found
        next tail hdrop =>
          cases found
          obtain ⟨hnot, hrest⟩ := hcut _ _ _ hdrop
          refine ⟨_, .template hnot, ?_⟩
          conv_lhs => rw [hrest]
          simp
        · cases found
      · cases found
  · rintro ⟨quoted, hquoted, rfl⟩
    unfold classValue?
    rw [Text.isPrefixOf?_eq_some_iff.mpr rfl]
    cases hquoted with
    | plain hnot =>
      obtain ⟨htake, hdrop⟩ := takeWhile_dropWhile_append_cons hnot follow
      simp only [List.cons_append, List.append_assoc, List.nil_append, hdrop, htake]
    | template hnot =>
      obtain ⟨htake, hdrop⟩ := takeWhile_dropWhile_append_cons hnot ('\x7d' :: follow)
      simp only [List.cons_append, List.append_assoc, List.nil_append, hdrop, htake]

/-- The first class attribute of a line is one with no class attribute that starts before it. -/
theorem classAttribute?_eq_some_iff : classAttribute? line = some (before, value, follow) ↔
    (∃ quoted, Quotes quoted value ∧ line = before ++ ("className=".toList ++ (quoted ++ follow))) ∧
      ∀ start ahead rest, before = start ++ ahead → ahead ≠ [] → line = start ++ rest →
        classValue? rest = none := by
  induction line generalizing before with
  | nil =>
    constructor
    · intro found
      cases found
    · rintro ⟨⟨quoted, -, hline⟩, -⟩
      simp at hline
  | cons c line ih =>
    rw [classAttribute?]
    constructor
    · intro found
      split at found
      next head tail hhere =>
        cases found
        refine ⟨?_, ?_⟩
        · obtain ⟨quoted, hquoted, hline⟩ := classValue?_eq_some_iff.mp hhere
          exact ⟨quoted, hquoted, hline⟩
        · intro start ahead rest hbefore hne
          exact absurd (List.append_eq_nil_iff.mp hbefore.symm).2 hne
      next hhere =>
        split at found
        next start value' follow' hthere =>
          cases found
          obtain ⟨⟨quoted, hquoted, hline⟩, hfirst⟩ := ih.mp hthere
          refine ⟨⟨quoted, hquoted, congrArg (c :: ·) hline⟩, ?_⟩
          intro part ahead rest hbefore hne hrest
          cases part with
          | nil =>
            obtain rfl : c :: line = rest := hrest
            exact hhere
          | cons d part =>
            exact hfirst part ahead rest (List.cons.inj hbefore).2 hne (List.cons.inj hrest).2
        · cases found
    · rintro ⟨⟨quoted, hquoted, hline⟩, hfirst⟩
      cases before with
      | nil =>
        have hhere : classValue? (c :: line) = some (value, follow) :=
          classValue?_eq_some_iff.mpr ⟨quoted, hquoted, hline⟩
        simp only [hhere]
      | cons d before =>
        obtain ⟨rfl, htail⟩ := List.cons.inj hline
        have hhere : classValue? (c :: line) = none :=
          hfirst [] (c :: before) (c :: line) rfl (by simp) rfl
        have hthere : classAttribute? line = some (before, value, follow) := by
          refine ih.mpr ⟨⟨quoted, hquoted, htail⟩, ?_⟩
          intro start ahead rest hbefore hne hrest
          exact hfirst (c :: start) ahead rest (congrArg (c :: ·) hbefore) hne
            (congrArg (c :: ·) hrest)
        simp only [hhere, hthere]

/-- A name that occurs again behind a text that is not empty leaves a rest that ends as the name
does. -/
theorem exists_rest_of_append_eq {ahead name rest found : List Char} {last : Char}
    (hne : ahead ≠ []) (h : ahead ++ (name ++ [last] ++ rest) = name ++ [last] ++ found) :
    ∃ between, ahead ++ (name ++ [last]) = name ++ [last] ++ (between ++ [last]) ∧
      found = between ++ last :: rest := by
  rw [← List.append_assoc] at h
  rcases List.append_eq_append_iff.mp h with ⟨short, hshort, -⟩ | ⟨long, hlong, hfound⟩
  · have hlength := congrArg List.length hshort
    have hpos := List.length_pos_of_ne_nil hne
    simp at hlength
    omega
  · rcases List.eq_nil_or_concat long with rfl | ⟨between, other, rfl⟩
    · have hlength := congrArg List.length hlong
      have hpos := List.length_pos_of_ne_nil hne
      simp only [List.length_append, List.append_nil] at hlength
      omega
    · have hlast : other = last := by
        have hends : ahead ++ name ++ [last] = name ++ [last] ++ between ++ [other] := by
          simpa using hlong
        exact (List.append_inj' hends rfl).2 |> List.singleton_inj.mp |>.symm
      subst hlast
      exact ⟨between, by simpa using hlong, by simpa using hfound⟩

/-- A value that starts before a class attribute and ends behind its name ends there too if the
attribute is written anew. -/
theorem exists_quotes_of_rewritten {fresh between quotes other tail : List Char}
    (hquoted : Quotes quoted value) (hhead : fresh.head? ≠ some '\x7d')
    (hquote : '"' ∈ fresh → '"' ∈ value ∨ between.head? ≠ some '"') (hquotes : Quotes quotes other)
    (h : quotes ++ tail =
      between ++ '=' :: '\x7b' :: '\x60' :: (fresh ++ '\x60' :: '\x7d' :: follow)) :
    ∃ quotes other tail, Quotes quotes other ∧
      between ++ '=' :: (quoted ++ follow) = quotes ++ tail := by
  have hvalue : ∀ c ∈ value, c ∈ quoted := by
    intro c hc
    cases hquoted <;> simp [hc]
  cases hquotes with
  | plain hnot =>
    rcases between with _ | ⟨c, between⟩
    · cases (List.cons.inj h).1
    obtain ⟨rfl, hrest⟩ := List.cons.inj h
    have hmem : '"' ∈ between ++ '=' :: (quoted ++ follow) := by
      have hmem : '"' ∈ between ++ '=' :: '\x7b' :: '\x60' ::
          (fresh ++ '\x60' :: '\x7d' :: follow) := by
        rw [← List.append_eq, ← hrest]
        simp
      simp only [List.mem_append, List.mem_cons] at hmem ⊢
      rcases hmem with hmem | hmem | hmem | hmem | hmem | hmem | hmem | hmem
      · exact Or.inl hmem
      all_goals first | exact absurd hmem (by decide) | skip
      · exact Or.inr (Or.inr (Or.inl (hvalue _ ((hquote hmem).resolve_right fun hne => hne rfl))))
      · exact Or.inr (Or.inr (Or.inr hmem))
    obtain ⟨tail, htail⟩ := Text.exists_eq_takeWhile_append hmem
    have hfree : '"' ∉ (between ++ '=' :: (quoted ++ follow)).takeWhile (· ≠ '"') :=
      fun hmem => by simpa using List.mem_takeWhile_imp hmem
    refine ⟨_, _, tail, .plain hfree, ?_⟩
    rw [List.cons_append, List.cons_append, List.append_assoc, List.singleton_append, ← htail]
  | template hnot =>
    rcases between with _ | ⟨c, _ | ⟨d, between⟩⟩
    · cases (List.cons.inj h).1
    · cases (List.cons.inj (List.cons.inj h).2).1
    obtain ⟨rfl, hbehind⟩ := List.cons.inj h
    obtain ⟨rfl, hrest⟩ := List.cons.inj hbehind
    rw [List.append_eq, List.append_eq, List.append_assoc] at hrest
    rcases List.append_eq_append_iff.mp hrest.symm with ⟨inside, rfl, hinside⟩ | ⟨inside, rfl, hinside⟩
    · -- the value would reach into the attribute, whose own backquote no brace follows
      exfalso
      rcases inside with _ | ⟨_, _ | ⟨_, _ | ⟨_, inside⟩⟩⟩
      · cases (List.cons.inj hinside).1
      · cases (List.cons.inj (List.cons.inj hinside).2).1
      · have hbrace := (List.cons.inj (List.cons.inj hinside).2).2
        cases fresh with
        | nil => cases (List.cons.inj (List.cons.inj hbrace).2).1
        | cons first fresh =>
          obtain rfl := (List.cons.inj (List.cons.inj hbrace).2).1
          exact hhead rfl
      · obtain rfl := (List.cons.inj (List.cons.inj (List.cons.inj hinside).2).2).1
        exact hnot (by simp)
    · rcases inside with _ | ⟨_, _ | ⟨_, inside⟩⟩
      · cases (List.cons.inj hinside).1
      · cases (List.cons.inj (List.cons.inj hinside).2).1
      · obtain ⟨rfl, hbrace⟩ := List.cons.inj hinside
        obtain ⟨rfl, -⟩ := List.cons.inj hbrace
        exact ⟨_, _, inside ++ '=' :: (quoted ++ follow), .template hnot, by simp⟩

/-- An attribute that is written anew is found where the old one was found, unless its quotes end one
that was open before. -/
theorem classAttribute?_rewritten (h : classAttribute? line = some (before, value, follow))
    {fresh : List Char} (hbackquote : '\x60' ∉ fresh) (hhead : fresh.head? ≠ some '\x7d')
    (hquote : '"' ∈ fresh → '"' ∈ value ∨ Text.contains "className=\"".toList before = false) :
    classAttribute? (before ++ ("className=\x7b\x60".toList ++ fresh ++ "\x60\x7d".toList) ++ follow)
      = some (before, fresh, follow) := by
  obtain ⟨⟨quoted, hquoted, rfl⟩, hfirst⟩ := classAttribute?_eq_some_iff.mp h
  have hname : "className=".toList = "className".toList ++ ['='] := by decide
  refine classAttribute?_eq_some_iff.mpr ⟨⟨_, .template hbackquote, by simp⟩, ?_⟩
  intro start ahead rest hbefore hne hrest
  subst hbefore
  obtain rfl : ahead ++ ("className".toList ++ ['='] ++
      ('\x7b' :: '\x60' :: (fresh ++ '\x60' :: '\x7d' :: follow))) = rest := by
    simpa using hrest
  have hold := hfirst start ahead _ rfl hne (List.append_assoc _ _ _)
  rw [Option.eq_none_iff_forall_ne_some]
  rintro ⟨other, tail⟩ hfound
  obtain ⟨quotes, hquotes, hother⟩ := classValue?_eq_some_iff.mp hfound
  rw [hname] at hother hold
  obtain ⟨between, hbetween, hends⟩ := exists_rest_of_append_eq hne hother
  have hopen : '"' ∈ fresh → '"' ∈ value ∨ between.head? ≠ some '"' := by
    refine fun hmem => (hquote hmem).imp_right fun hnone hhead => ?_
    obtain ⟨behind, rfl⟩ := List.head?_eq_some_iff.mp hhead
    rw [← Bool.not_eq_true, Text.contains_iff_isInfix] at hnone
    refine hnone (List.IsInfix.trans ?_ (List.suffix_append start ahead).isInfix)
    have hcut : "className=".toList ++ '"' :: (behind ++ ['=']) = ahead ++ "className=".toList := by
      rw [hname, hbetween]
      simp
    obtain ⟨rest, rfl⟩ := Text.exists_of_append_cons_eq hcut (by decide)
    exact ⟨[], rest, by simp⟩
  obtain ⟨quotes, other, tail, hquotes, hearlier⟩ :=
    exists_quotes_of_rewritten hquoted hhead hopen hquotes hends
  have hsome : classValue? (ahead ++ ("className".toList ++ ['='] ++ (quoted ++ follow))) =
      some (other, tail) := by
    refine classValue?_eq_some_iff.mpr ⟨quotes, hquotes, ?_⟩
    rw [← List.append_assoc, hbetween, ← hearlier, hname]
    simp
  rw [hold] at hsome
  cases hsome

/-! ## The classes of the body element -/

variable {binding next token : List Char}

/-- A run is what it is cut off from. -/
theorem run?_eq_some {inClass : Char → Bool} {taken rest : List Char}
    (h : run? inClass text = some (taken, rest)) :
    taken ≠ [] ∧ (∀ c ∈ taken, inClass c = true) ∧ text = taken ++ rest := by
  unfold run? at h
  split at h
  · cases h
  next htaken =>
    cases h
    exact ⟨htaken, fun c hc => List.mem_takeWhile_imp hc,
      (List.takeWhile_append_dropWhile (p := inClass) (l := text)).symm⟩

/-- A run in front of a character of another class is cut off. -/
theorem run?_append_cons {inClass : Char → Bool} {taken rest : List Char} {c : Char}
    (hne : taken ≠ []) (htaken : ∀ d ∈ taken, inClass d = true) (hc : inClass c = false) :
    run? inClass (taken ++ c :: rest) = some (taken, c :: rest) := by
  unfold run?
  rw [List.takeWhile_append_of_pos htaken, List.dropWhile_append_of_pos htaken]
  simp only [List.takeWhile_cons, List.dropWhile_cons, hc, Bool.false_eq_true, if_false,
    List.append_nil]

/-- A class stands for a font's constant if it is a reference to a word. -/
theorem isFontReference_iff : isFontReference token = true ↔
    ∃ name, name ≠ [] ∧ (∀ c ∈ name, Text.isWord c = true) ∧ token = fontReference name := by
  have hdot : ".variable\x7d".toList = '.' :: "variable\x7d".toList := rfl
  unfold isFontReference fontReference
  constructor
  · intro h
    split at h
    · cases h
    next rest hstart =>
      split at h
      · cases h
      next name tail hrun =>
        obtain ⟨hne, hword, rfl⟩ := run?_eq_some hrun
        refine ⟨name, hne, hword, ?_⟩
        rw [Text.isPrefixOf?_eq_some_iff.mp hstart, of_decide_eq_true h, List.append_assoc]
  · rintro ⟨name, hne, hword, rfl⟩
    rw [List.append_assoc, Text.isPrefixOf?_eq_some_iff.mpr rfl, hdot]
    simp only [run?_append_cons hne hword (Text.isWord_of_gap (c := '.') rfl),
      decide_true]

/-- A class attribute is its name, an equals sign, and its classes in backquotes and braces. -/
theorem classAttribute_eq (classes : List (List Char)) : classAttribute classes =
    "className".toList ++ '=' :: '\x7b' :: '\x60' ::
      ([' '].intercalate classes ++ ['\x60', '\x7d']) := by
  have hstart : "className=\x7b\x60".toList = "className".toList ++ ['=', '\x7b', '\x60'] := by
    decide
  have hend : "\x60\x7d".toList = ['\x60', '\x7d'] := by decide
  change "className=\x7b\x60".toList ++ [' '].intercalate classes ++ "\x60\x7d".toList = _
  rw [hstart, hend]
  simp only [List.append_assoc, List.cons_append, List.nil_append]

/-- A name of letters and digits. -/
structure IsConstant (binding : List Char) : Prop where
  /-- There is a name. -/
  ne_nil : binding ≠ []
  /-- Its characters are letters and digits. -/
  isAlphanum : ∀ c ∈ binding, c.isAlphanum = true

/-- The reference to a constant is one. -/
theorem IsConstant.isFontReference (h : IsConstant binding) :
    isFontReference (fontReference binding) = true :=
  isFontReference_iff.mpr
    ⟨binding, h.ne_nil, fun c hc => Text.isWord_of_isAlphanum (h.isAlphanum c hc), rfl⟩

/-- The characters of the classes that are put in: letters, digits, and what a reference takes. -/
def isNaming (c : Char) : Bool := c.isAlphanum || ['$', '\x7b', '.', '\x7d', '-'].contains c

/-- Naming characters are not blank. -/
theorem isBlank_of_isNaming {c : Char} (h : isNaming c = true) : Text.isBlank c = false := by
  rw [isNaming, Bool.or_eq_true] at h
  rcases h with h | h
  · exact Text.isBlank_of_isAlphanum h
  · have hall : (['$', '\x7b', '.', '\x7d', '-'].all fun c => !Text.isBlank c) = true := by decide
    simpa using List.all_eq_true.mp hall c (List.contains_iff_mem.mp h)

/-- A reference to a constant is made of naming characters. -/
theorem IsConstant.isNaming_of_mem (h : IsConstant binding) {c : Char}
    (hc : c ∈ fontReference binding) : isNaming c = true := by
  have hstart : "$\x7b".toList.all isNaming = true := by decide
  have hend : ".variable\x7d".toList.all isNaming = true := by decide
  rw [fontReference, List.mem_append, List.mem_append] at hc
  rcases hc with (hc | hc) | hc
  · exact List.all_eq_true.mp hstart c hc
  · simp [isNaming, h.isAlphanum c hc]
  · exact List.all_eq_true.mp hend c hc

/-- A class of the body element is an old one or made of naming characters. -/
theorem mem_rootClasses (h : IsConstant binding) (htoken : token ∈ rootClasses binding value) :
    token ∈ Text.words value ∨ token ≠ [] ∧ ∀ c ∈ token, isNaming c = true := by
  have hfont : fontClass.all isNaming = true := by decide
  have hsmooth : smoothClass.all isNaming = true := by decide
  simp only [rootClasses, List.mem_append, List.mem_cons, List.mem_filter, List.not_mem_nil,
    or_false] at htoken
  rcases htoken with ((rfl | rfl) | ⟨hword, -⟩) | rfl
  · exact Or.inr ⟨by simp [fontReference], fun c hc => h.isNaming_of_mem hc⟩
  · exact Or.inr ⟨by decide, List.all_eq_true.mp hfont⟩
  · exact Or.inl hword
  · exact Or.inr ⟨by decide, List.all_eq_true.mp hsmooth⟩

/-- The classes of the body element are words if the name of the constant has no white space. -/
theorem words_intercalate_rootClasses_of_visible (h : ∀ c ∈ binding, Text.isBlank c = false)
    (value : List Char) :
    Text.words ([' '].intercalate (rootClasses binding value)) = rootClasses binding value := by
  have hreference : ∀ c ∈ fontReference binding, (!Text.isBlank c) = true := by
    have hends : ("$\x7b".toList ++ ".variable\x7d".toList).all (fun c => !Text.isBlank c) = true := by
      decide
    simp only [List.all_append, Bool.and_eq_true, List.all_eq_true] at hends
    simp only [fontReference, List.forall_mem_append]
    exact ⟨⟨hends.1, fun c hc => by rw [h c hc]; rfl⟩, hends.2⟩
  have hclass : ∀ token ∈ rootClasses binding value,
      token ≠ [] ∧ ∀ c ∈ token, (!Text.isBlank c) = true := by
    have hfont : fontClass.all (fun c => !Text.isBlank c) = true := by decide
    have hsmooth : smoothClass.all (fun c => !Text.isBlank c) = true := by decide
    simp only [rootClasses, List.forall_mem_append, List.forall_mem_cons]
    refine ⟨⟨⟨⟨by simp [fontReference], hreference⟩, ⟨by decide, List.all_eq_true.mp hfont⟩, by simp⟩,
      fun token htoken => ?_⟩, ⟨by decide, List.all_eq_true.mp hsmooth⟩, by simp⟩
    have hword := (List.mem_filter.mp htoken).1
    exact ⟨Text.ne_nil_of_mem_runs hword, fun c hc => Text.inClass_of_mem_runs hword hc⟩
  exact Text.runs_intercalate (by decide) (fun token htoken => (hclass token htoken).1)
    fun token htoken => (hclass token htoken).2

/-- The classes of the body element are words. -/
theorem words_intercalate_rootClasses (h : IsConstant binding) (value : List Char) :
    Text.words ([' '].intercalate (rootClasses binding value)) = rootClasses binding value :=
  words_intercalate_rootClasses_of_visible
    (fun c hc => isBlank_of_isNaming (by simp [isNaming, h.isAlphanum c hc])) value

/-- The classes for one font after another are those for the other font. -/
theorem rootClasses_rootClasses (h : IsConstant binding) (next value : List Char) :
    rootClasses next ([' '].intercalate (rootClasses binding value)) = rootClasses next value := by
  rw [rootClasses, words_intercalate_rootClasses h]
  simp [rootClasses, List.filter_append, h.isFontReference]

/-- The attribute that names a font is found in the place of the old one. -/
theorem classAttribute?_classAttribute (h : IsConstant binding)
    (hfound : classAttribute? line = some (before, value, follow)) (hvalue : '\x60' ∉ value) :
    classAttribute? (before ++ classAttribute (rootClasses binding value) ++ follow) =
      some (before, [' '].intercalate (rootClasses binding value), follow) := by
  have hmem : ∀ c, isNaming c = false → c ≠ ' ' → c ∈ [' '].intercalate (rootClasses binding value) →
      c ∈ value := by
    intro c hc hspace hjoined
    rcases Text.mem_intercalate_iff.mp hjoined with ⟨rfl, -⟩ | ⟨token, htoken, hin⟩
    · exact absurd rfl hspace
    · rcases mem_rootClasses h htoken with hword | ⟨-, hnaming⟩
      · exact (Text.exists_mem_runs_iff.mp ⟨token, hword, hin⟩).1
      · rw [hnaming c hin] at hc
        cases hc
  refine classAttribute?_rewritten hfound (fun hc => hvalue (hmem _ (by decide) (by decide) hc)) ?_
    fun hc => Or.inl (hmem _ (by decide) (by decide) hc)
  simp [rootClasses, fontReference, List.intercalate_cons_cons]

end Layout

end Siteworks
