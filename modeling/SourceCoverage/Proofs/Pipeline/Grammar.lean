import SourceCoverage.Pipeline.Parsing
import SourceCoverage.Proofs.Results

/-!
# The Grammar of Pipelines

The texts of pipelines are those that derive from a grammar of two symbols,

* `pipeline := element (',' element)*`,
* `element := pass | 'module(' pipeline ')'`,

whose leaves are the texts of passes. The relation `Pipeline.Derives` is the grammar, and gives with
every text the passes of its leaves from left to right.

The reader cuts a text at commas and tells brackets apart only when it looks at a part as a whole,
so that it is not obvious that it accepts no other texts. In one direction, what the cuts leave is
joined by commas to the text again, and each part that is accepted has the form of an element. In
the other direction a derived text is *whole* for the cutting: an element is never cut, and a
pipeline not where it lies in brackets.

## Main results

* `Pipeline.derives_of_passesOf`: what is accepted derives from the grammar.
* `Pipeline.Derives.accepted`: what derives from the grammar is accepted.
* `Pipeline.parse_iff_derives`: the two together, and the errors for all other texts.
-/

namespace SourceCoverage.Pipeline

/-- The symbols of the grammar. -/
inductive Nonterminal where
  | pipeline
  | element
  deriving Repr, DecidableEq

/-- The **grammar**: a text derives from a symbol, and the passes are those of its leaves. -/
inductive Derives : Nonterminal → List Char → List Pass → Prop
  | pass (pass : Pass) : Derives .element pass.text.toList [pass]
  | nested {inner : List Char} {passes : List Pass} (h : Derives .pipeline inner passes) :
      Derives .element ("module(".toList ++ inner ++ [')']) passes
  | last {text : List Char} {passes : List Pass} (h : Derives .element text passes) :
      Derives .pipeline text passes
  | more {text rest : List Char} {passes others : List Pass} (h : Derives .element text passes)
      (hrest : Derives .pipeline rest others) :
      Derives .pipeline (text ++ ',' :: rest) (passes ++ others)

/-! ### One part after another -/

/-- A text is accepted if it is not empty, can be cut, and each part is accepted. -/
theorem passesOf_eq_ok_iff {text : List Char} {passes : List Pass} : passesOf text = .ok passes ↔
    text ≠ [] ∧ ∃ parts passess, split 0 text = .ok parts ∧
      List.Forall₂ (fun part passes => passesOfPart part = .ok passes) parts passess ∧
      passes = passess.flatten := by
  rw [passesOf]
  by_cases hempty : text = []
  · simp [hempty]
  · rw [if_neg hempty]
    cases hsplit : split 0 text with
    | error fault => simp
    | ok parts =>
        -- The recursive calls carry the membership that termination rests on; they do not use it.
        simp only [List.mapM_subtype, List.unattach_attach, ← mapM_eq_ok_iff]
        cases hparts : parts.mapM passesOfPart with
        | error fault => simp [bind, Except.bind, hparts]
        | ok passess => simp [bind, Except.bind, pure, Except.pure, hempty, hparts, eq_comm]

/-- A pipeline in `module(…)` stands for its passes. -/
theorem passesOfPart_nested (inner : List Char) :
    passesOfPart (moduleHead ++ inner ++ [')']) = passesOf inner := by
  have hhead : Text.dropHead? moduleHead (moduleHead ++ inner ++ [')']) = some (inner ++ [')']) :=
    Text.dropHead?_eq_some_iff.2 (List.append_assoc ..)
  have hlast : Text.dropLast? ')' (inner ++ [')']) = some inner := Text.dropLast?_eq_some_iff.2 rfl
  rw [passesOfPart, if_neg (by simp [moduleHead])]
  split
  · simp_all
  · obtain rfl := Option.some.inj (hhead.symm.trans ‹_›)
    split
    · simp_all
    · rw [Option.some.inj (hlast.symm.trans ‹_›)]

/-- Any other part is a single pass. -/
theorem passesOfPart_of_not_module {part : List Char}
    (hhead : Text.dropHead? moduleHead part = none) (hne : part ≠ []) :
    passesOfPart part = (leaf part).map ([·]) := by
  rw [passesOfPart, if_neg hne]
  split
  · rfl
  · simp_all

/-- What is accepted with the head of a nested pipeline has its end as well. -/
theorem exists_of_passesOfPart {part : List Char} {passes : List Pass}
    (h : passesOfPart part = .ok passes) :
    (∃ inner, part = moduleHead ++ inner ++ [')'] ∧ passesOf inner = .ok passes) ∨
      ∃ pass, leaf part = .ok pass ∧ passes = [pass] := by
  have hne : part ≠ [] := by
    rintro rfl
    simp [passesOfPart] at h
  cases hhead : Text.dropHead? moduleHead part with
  | none =>
      rw [passesOfPart_of_not_module hhead hne] at h
      cases hleaf : leaf part with
      | error fault => simp [hleaf, Except.map] at h
      | ok pass => exact .inr ⟨pass, rfl, by simpa [hleaf, Except.map, eq_comm] using h⟩
  | some rest =>
      obtain rfl := Text.dropHead?_eq_some_iff.1 hhead
      cases hlast : Text.dropLast? ')' rest with
      | none =>
          rw [passesOfPart, if_neg hne] at h
          split at h
          · simp_all
          · split at h <;> simp_all
      | some inner =>
          obtain rfl := Text.dropLast?_eq_some_iff.1 hlast
          rw [← List.append_assoc, passesOfPart_nested] at h
          exact .inl ⟨inner, (List.append_assoc ..).symm, h⟩

/-! ### From accepted texts to derivations -/

/-- A character goes to the first part, unless it is a comma between two parts. -/
theorem exists_of_split_cons {depth : Nat} {c : Char} {rest : List Char}
    {parts : List (List Char)} (h : split depth (c :: rest) = .ok parts) :
    ∃ depth' others, split depth' rest = .ok others ∧
      (parts = consToFirst c others ∨ c = ',' ∧ parts = [] :: others) := by
  have hmap {depth : Nat} {f : List (List Char) → List (List Char)}
      (h : (split depth rest).map f = .ok parts) :
      ∃ others, split depth rest = .ok others ∧ parts = f others := by
    cases hrest : split depth rest with
    | error fault => simp [hrest, Except.map] at h
    | ok others => exact ⟨others, rfl, by simpa [hrest, Except.map, eq_comm] using h⟩
  have hgoes {depth : Nat} (h : (split depth rest).map (consToFirst c) = .ok parts) :
      ∃ depth' others, split depth' rest = .ok others ∧
        (parts = consToFirst c others ∨ c = ',' ∧ parts = [] :: others) := by
    obtain ⟨others, hrest, heq⟩ := hmap h
    exact ⟨_, others, hrest, .inl heq⟩
  rw [split] at h
  split at h
  · exact hgoes h
  · split at h
    · split at h
      · cases h
      · exact hgoes h
    · split at h
      · rename_i hcomma
        obtain ⟨others, hrest, heq⟩ := hmap h
        exact ⟨0, others, hrest, .inr ⟨hcomma.1, heq⟩⟩
      · exact hgoes h

/-- What a text is cut into is joined to the text again. -/
theorem intercalate_of_split {depth : Nat} {text : List Char} {parts : List (List Char)}
    (h : split depth text = .ok parts) : parts ≠ [] ∧ text = [','].intercalate parts := by
  induction text generalizing depth parts with
  | nil =>
      rw [split] at h
      split at h
      · obtain rfl := Except.ok.inj h
        exact ⟨List.cons_ne_nil _ _, rfl⟩
      · cases h
  | cons c rest ih =>
      obtain ⟨depth', others, hrest, hparts⟩ := exists_of_split_cons h
      obtain ⟨hne, hjoin⟩ := ih hrest
      obtain ⟨first, others, rfl⟩ := List.exists_cons_of_ne_nil hne
      rcases hparts with rfl | ⟨rfl, rfl⟩
      · refine ⟨List.cons_ne_nil _ _, ?_⟩
        rw [hjoin]
        cases others <;> simp [consToFirst]
      · refine ⟨List.cons_ne_nil _ _, ?_⟩
        rw [hjoin]
        simp

/-- Joined elements are a pipeline. -/
theorem derives_intercalate {parts : List (List Char)} {passess : List (List Pass)}
    (h : List.Forall₂ (Derives .element) parts passess) (hne : parts ≠ []) :
    Derives .pipeline ([','].intercalate parts) passess.flatten := by
  induction h with
  | nil => exact absurd rfl hne
  | cons hpart hparts ih =>
      cases hparts with
      | nil => simpa using Derives.last hpart
      | cons hnext hparts => simpa using Derives.more hpart (ih (List.cons_ne_nil _ _))

/-- A name, with parameters if there are any. -/
def spelling (name : String) : Option String → String
  | none => name
  | some params => name ++ "<" ++ params ++ ">"

/-- The pass of a name and parameters is spelled with them. -/
theorem text_of_pass {name : String} {params : Option String} {p : Pass}
    (h : Pipeline.pass name params = .ok p) : p.text = spelling name params := by
  unfold Pipeline.pass at h
  dsimp only at h
  split at h
  case h_1 =>
    cases hlevel : OptLevel.ofText? (params.getD "") with
    | none => simp [hlevel] at h
    | some level =>
        have htext : level.text = params.getD "" := by simpa using List.find?_some hlevel
        cases params with
        | none => cases level <;> simp [OptLevel.text] at htext
        | some params =>
            simp only [hlevel] at h
            obtain rfl := Except.ok.inj h
            rw [Pass.text, htext]
            rfl
  case h_2 =>
    split at h
    · obtain rfl := Except.ok.inj h
      rfl
    · obtain rfl := Except.ok.inj h
      rfl
    · cases h
  case h_7 => cases h
  all_goals
    cases params with
    | none =>
        obtain rfl := Except.ok.inj h
        rfl
    | some params => cases h

/-- A part is read as the pass that it spells. -/
theorem text_of_leaf {part : List Char} {p : Pass} (h : leaf part = .ok p) :
    part = p.text.toList := by
  have hcut : part.takeWhile (· ≠ '<') ++ part.dropWhile (· ≠ '<') = part :=
    List.takeWhile_append_dropWhile
  have hhead := List.head?_dropWhile_not (· ≠ '<') part
  unfold leaf at h
  cases hrest : part.dropWhile (· ≠ '<') with
  | nil =>
      rw [hrest, List.append_nil] at hcut
      simp only [hrest, hcut] at h
      rw [text_of_pass h, spelling, String.toList_ofList]
  | cons c rest =>
      rw [hrest] at hcut hhead
      obtain rfl : c = '<' := by simpa using hhead
      simp only [hrest] at h
      cases hlast : Text.dropLast? '>' rest with
      | none => simp [hlast] at h
      | some params =>
          obtain rfl := Text.dropLast?_eq_some_iff.1 hlast
          simp only [hlast] at h
          rw [text_of_pass h, spelling]
          simpa using hcut.symm

/-- **What is accepted derives from the grammar.** Induction on the length of the text: what is
nested in it is shorter. -/
theorem derives_of_passesOf {text : List Char} {passes : List Pass}
    (h : passesOf text = .ok passes) : Derives .pipeline text passes := by
  induction hlength : text.length using Nat.strongRecOn generalizing text passes with
  | ind n ih =>
      obtain ⟨-, parts, passess, hsplit, hparts, rfl⟩ := passesOf_eq_ok_iff.1 h
      obtain ⟨hne, hjoin⟩ := intercalate_of_split hsplit
      have hshort : ∀ part ∈ parts, part.length ≤ n := fun part hpart =>
        hlength ▸ length_le_of_mem_split hsplit hpart
      rw [hjoin]
      refine derives_intercalate ?_ hne
      refine ((List.forall₂_and_left ..).2 ⟨hshort, hparts⟩).imp fun part passes ⟨hle, hpart⟩ => ?_
      rcases exists_of_passesOfPart hpart with ⟨inner, rfl, hinner⟩ | ⟨pass, hleaf, rfl⟩
      · have hlt : inner.length < n := by
          simp only [List.length_append, List.length_singleton] at hle
          omega
        exact .nested (ih _ hlt hinner rfl)
      · rw [text_of_leaf hleaf]
        exact .pass pass

/-! ### From derivations to accepted texts -/

/-- The splitter takes a text as a whole where it lies in at least so many brackets, and is in as
many behind it. -/
def Whole (brackets : Nat) (text : List Char) : Prop :=
  ∀ depth rest, brackets ≤ depth →
    split depth (text ++ rest) = (split depth rest).map fun parts => text.foldr consToFirst parts

namespace Whole

variable {brackets : Nat} {text text' : List Char}

/-- In more brackets. -/
theorem mono (h : Whole 0 text) : Whole brackets text := fun depth rest _ =>
  h depth rest (Nat.zero_le depth)

/-- Two texts in a row. -/
theorem append (h : Whole brackets text) (h' : Whole brackets text') :
    Whole brackets (text ++ text') := by
  intro depth rest hle
  rw [List.append_assoc, h depth _ hle, h' depth rest hle]
  cases split depth rest with
  | error fault => rfl
  | ok parts => simp [Except.map]

/-- Any character but a bracket and a comma. -/
theorem plain {c : Char} (hopen : ¬(c = '(' ∨ c = '<')) (hclose : ¬(c = ')' ∨ c = '>'))
    (hcomma : c ≠ ',') : Whole 0 [c] := by
  intro depth rest _
  rw [List.singleton_append, split, if_neg hopen, if_neg hclose, if_neg fun h => hcomma h.1]
  rfl

/-- A comma, in brackets. -/
theorem comma : Whole 1 [','] := by
  intro depth rest hle
  rw [List.singleton_append, split, if_neg (by decide), if_neg (by decide), if_neg (by omega)]
  rfl

/-- A text in brackets. -/
theorem bracketed {opening closing : Char} (hopen : opening = '(' ∨ opening = '<')
    (hclose : closing = ')' ∨ closing = '>') (h : Whole 1 text) :
    Whole 0 (opening :: text ++ [closing]) := by
  intro depth rest _
  have hclosing : ¬(closing = '(' ∨ closing = '<') := by
    rcases hclose with rfl | rfl <;> decide
  rw [List.append_assoc, List.cons_append, split, if_pos hopen, h (depth + 1) _ (by omega),
    List.singleton_append, split, if_neg hclosing, if_pos hclose, if_neg (by omega),
    Nat.add_sub_cancel]
  cases split depth rest with
  | error fault => rfl
  | ok parts => simp [Except.map]

/-- Whether the splitter takes no notice of a character. -/
def isPlain (c : Char) : Bool := c ∉ ['(', '<', ')', '>', ',']

/-- A text without brackets and commas. -/
theorem plainText (h : text.all isPlain) : Whole 0 text := by
  induction text with
  | nil =>
      intro depth rest _
      cases hrest : split depth rest <;> simp [Except.map, hrest]
  | cons c text ih =>
      rw [List.all_cons, Bool.and_eq_true] at h
      obtain ⟨hc, htext⟩ := h
      simp only [isPlain, decide_eq_true_eq, List.mem_cons, List.not_mem_nil, or_false, not_or]
        at hc
      exact (plain (by tauto) (by tauto) (by tauto)).append (ih htext)

/-- A name with parameters. -/
theorem parametrised {name params : List Char} (hname : name.all isPlain)
    (hparams : params.all isPlain) : Whole 0 (name ++ ('<' :: params ++ ['>'])) :=
  (plainText hname).append (bracketed (.inr rfl) (.inr rfl) (plainText hparams).mono)

/-- The text of a pass. -/
theorem pass (p : Pass) : Whole 0 p.text.toList := by
  cases p with
  | lowerIncrements lowering =>
      obtain ⟨_ | _⟩ := lowering
      · exact plainText rfl
      · change Whole 0 ("instrprof".toList ++ ('<' :: "atomic".toList ++ ['>']))
        exact parametrised rfl rfl
  | removeDeadSymbols => exact plainText rfl
  | stripDeadPrototypes => exact plainText rfl
  | optimize level =>
      have htext : (Pass.optimize level).text.toList
          = "default".toList ++ ('<' :: level.text.toList ++ ['>']) := by simp [Pass.text]
      rw [htext]
      exact parametrised rfl (by cases level <;> rfl)
  | verify => exact plainText rfl
  | noOp => exact plainText rfl

/-- A pipeline in `module(…)`. -/
theorem nested (h : Whole 1 text) : Whole 0 (moduleHead ++ text ++ [')']) := by
  have hhead : Whole 0 ['m', 'o', 'd', 'u', 'l', 'e'] := plainText rfl
  exact hhead.append (bracketed (.inl rfl) (.inl rfl) h)

/-- Joining to the first part. -/
theorem foldr_consToFirst (text part : List Char) (parts : List (List Char)) :
    text.foldr consToFirst (part :: parts) = (text ++ part) :: parts := by
  induction text with
  | nil => rfl
  | cons c text ih => rw [List.foldr_cons, ih, consToFirst, List.cons_append]

/-- It is not cut if nothing follows. -/
theorem split_eq (h : Whole 0 text) : split 0 text = .ok [text] := by
  have hsplit := h 0 [] (Nat.le_refl 0)
  rw [List.append_nil] at hsplit
  rw [hsplit, split, if_pos rfl, Except.map, foldr_consToFirst, List.append_nil]

/-- It is cut off at a comma behind it. -/
theorem split_append_comma (h : Whole 0 text) (rest : List Char) :
    split 0 (text ++ ',' :: rest) = (split 0 rest).map (text :: ·) := by
  rw [h 0 _ (Nat.le_refl 0), split, if_neg (by decide), if_neg (by decide), if_pos ⟨rfl, rfl⟩]
  cases split 0 rest with
  | error fault => rfl
  | ok parts => simp only [Except.map, foldr_consToFirst, List.append_nil]

end Whole

/-- The text of a pass is read as the pass. -/
theorem leaf_text (p : Pass) : leaf p.text.toList = .ok p := by
  cases p with
  | lowerIncrements lowering =>
      obtain ⟨_ | _⟩ := lowering
      · rfl
      · rfl
  | removeDeadSymbols => rfl
  | stripDeadPrototypes => rfl
  | optimize level => cases level <;> rfl
  | verify => rfl
  | noOp => rfl

/-- The text of a pass is accepted as a part. -/
theorem passesOfPart_text (p : Pass) : passesOfPart p.text.toList = .ok [p] := by
  have hhead : Text.dropHead? moduleHead p.text.toList = none := by
    cases p with
    | lowerIncrements lowering =>
        obtain ⟨_ | _⟩ := lowering
        · rfl
        · rfl
    | optimize level => cases level <;> rfl
    | _ => rfl
  have hne : p.text.toList ≠ [] := by
    intro h
    have := leaf_text p
    rw [h] at this
    cases this
  rw [passesOfPart_of_not_module hhead hne, leaf_text]
  rfl

/-- A text is accepted as what it derives from: an element is a part that is never cut, and a
pipeline is a text that is not cut in brackets. -/
def Accepted : Nonterminal → List Char → List Pass → Prop
  | .element, text, passes => Whole 0 text ∧ passesOfPart text = .ok passes
  | .pipeline, text, passes => Whole 1 text ∧ passesOf text = .ok passes

/-- **What derives from the grammar is accepted.** -/
theorem Derives.accepted {symbol : Nonterminal} {text : List Char} {passes : List Pass}
    (h : Derives symbol text passes) : Accepted symbol text passes := by
  induction h with
  | pass p => exact ⟨.pass p, passesOfPart_text p⟩
  | nested h ih =>
      obtain ⟨hwhole, hpasses⟩ := ih
      exact ⟨hwhole.nested, (passesOfPart_nested _).trans hpasses⟩
  | @last text passes h ih =>
      obtain ⟨hwhole, hpasses⟩ := ih
      have hne : text ≠ [] := by
        rintro rfl
        simp [passesOfPart] at hpasses
      refine ⟨hwhole.mono, passesOf_eq_ok_iff.2 ⟨hne, [text], [passes], hwhole.split_eq,
        .cons hpasses .nil, ?_⟩⟩
      simp
  | @more text rest passes others h hrest ih ihrest =>
      obtain ⟨hwhole, hpasses⟩ := ih
      obtain ⟨hwholes, hothers⟩ := ihrest
      obtain ⟨-, parts, passess, hsplit, hparts, rfl⟩ := passesOf_eq_ok_iff.1 hothers
      refine ⟨hwhole.mono.append (Whole.comma.append hwholes), passesOf_eq_ok_iff.2 ⟨by simp,
        text :: parts, passes :: passess, ?_, .cons hpasses hparts, rfl⟩⟩
      rw [hwhole.split_append_comma, hsplit]
      rfl

/-! ### Readers and the grammar -/

/-- The error for a fault says that a name, the parameters of a pass, or the form of the text is
wrong. -/
theorem Fault.toError_cases (text : String) (fault : Fault) :
    (∃ name, fault.toError text = .unknownPass name) ∨
      (∃ reason, fault.toError text = .malformed text reason) ∨
      ∃ pass params, fault.toError text = .invalidParams pass params := by
  cases fault with
  | unknownPass name => exact .inl ⟨name, rfl⟩
  | invalidParams pass params => exact .inr (.inr ⟨pass, params, rfl⟩)
  | _ => exact .inr (.inl ⟨_, rfl⟩)

/-- **The reader accepts the texts of the grammar**, and reads each as the passes of its leaves from
left to right. For every other text there is an error that says that a name, the parameters of a
pass, or the form of the text is wrong. -/
theorem parse_iff_derives (text : String) :
    (∀ passes, parse text = .ok ⟨passes⟩ ↔ Derives .pipeline text.toList passes) ∧
    ((¬∃ passes, Derives .pipeline text.toList passes) → ∃ e, parse text = .error e ∧
      ((∃ name, e = .unknownPass name) ∨ (∃ reason, e = .malformed text reason) ∨
        ∃ pass params, e = .invalidParams pass params)) := by
  have haccepted : ∀ passes,
      passesOf text.toList = .ok passes ↔ Derives .pipeline text.toList passes :=
    fun passes => ⟨derives_of_passesOf, fun h => h.accepted.2⟩
  rw [parse]
  cases hpasses : passesOf text.toList with
  | ok passes =>
      refine ⟨fun other => ?_, fun hnone => absurd ⟨passes, (haccepted passes).1 hpasses⟩ hnone⟩
      rw [← haccepted, hpasses]
      simp
  | error fault =>
      refine ⟨fun other => ?_, fun _ => ⟨_, rfl, fault.toError_cases text⟩⟩
      rw [← haccepted, hpasses]
      simp

end SourceCoverage.Pipeline
