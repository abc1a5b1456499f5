import SourceCoverage.Error
import SourceCoverage.Pipeline.Basic
import SourceCoverage.Text.Affix

/-!
# Reading Pipelines

A pipeline is a list of elements separated by commas, and an element is a pass or a pipeline in
`module(…)`, which stands for its passes. There are no blanks. A text is read in two steps. It is
*split* at the commas that lie in no brackets of either sort, which settles whether brackets are
balanced in number; then each part is read by itself. That a bracket is closed by one of its own
sort is left to the second step, in which every part has to be of one of the two forms as a
whole.
-/

namespace SourceCoverage.Pipeline

/-- What is wrong with the text of a pipeline. -/
inductive Fault where
  | unknownPass (name : String)
  | invalidParams (pass params : String)
  /-- A bracket closes what was not open. -/
  | unbalanced (bracket : Char)
  /-- A bracket is left open. -/
  | unbalancedBrackets
  | emptyPipeline
  | emptyName
  | unterminatedModule
  /-- Something follows the parameters of a pass. -/
  | trailingText (name : String)
  deriving Repr, DecidableEq

/-- The error for a fault in a text. -/
def Fault.toError (text : String) : Fault → PipelineError
  | unknownPass name => .unknownPass name
  | invalidParams pass params => .invalidParams pass params
  | unbalanced bracket => .malformed text s!"unbalanced '{bracket}'"
  | unbalancedBrackets => .malformed text "unbalanced brackets"
  | emptyPipeline => .malformed text "empty pipeline"
  | emptyName => .malformed text "empty pass name"
  | unterminatedModule => .malformed text "unterminated 'module('"
  | trailingText name => .malformed text s!"trailing text after parameters of '{name}'"

/-! ### Splitting -/

/-- Puts a character in front of the first part. -/
def consToFirst (c : Char) : List (List Char) → List (List Char)
  | [] => [[c]]
  | part :: parts => (c :: part) :: parts

/-- Splits a text, of which the part before lies in `depth` open brackets, at the commas that lie
in none. -/
def split (depth : Nat) : List Char → Except Fault (List (List Char))
  | [] => if depth = 0 then .ok [[]] else .error .unbalancedBrackets
  | c :: rest =>
    if c = '(' ∨ c = '<' then (split (depth + 1) rest).map (consToFirst c)
    else if c = ')' ∨ c = '>' then
      if depth = 0 then .error (.unbalanced c)
      else (split (depth - 1) rest).map (consToFirst c)
    else if c = ',' ∧ depth = 0 then (split 0 rest).map ([] :: ·)
    else (split depth rest).map (consToFirst c)

/-- No part is longer than the whole. -/
theorem length_le_of_mem_split {depth : Nat} {text part : List Char} {parts : List (List Char)}
    (h : split depth text = .ok parts) (mem : part ∈ parts) : part.length ≤ text.length := by
  induction text generalizing depth part parts with
  | nil =>
    simp only [split] at h
    split at h
    · obtain rfl := Except.ok.inj h
      simp_all
    · simp at h
  | cons c rest ih =>
    have step {depth : Nat} {parts : List (List Char)}
        (h : (split depth rest).map (consToFirst c) = .ok parts) (mem : part ∈ parts) :
        part.length ≤ (c :: rest).length := by
      cases hrest : split depth rest with
      | error fault => simp [hrest, Except.map] at h
      | ok others =>
        rw [hrest] at h
        obtain rfl := Except.ok.inj h
        cases others with
        | nil => simp_all [consToFirst]
        | cons first others =>
          rcases List.mem_cons.1 mem with rfl | mem
          · have := ih hrest (List.mem_cons_self ..)
            simp only [List.length_cons]
            omega
          · have := ih hrest (List.mem_cons_of_mem _ mem)
            simp only [List.length_cons]
            omega
    simp only [split] at h
    split at h
    · exact step h mem
    · split at h
      · split at h
        · simp at h
        · exact step h mem
      · split at h
        · cases hrest : split 0 rest with
          | error fault => simp [hrest, Except.map] at h
          | ok others =>
            rw [hrest] at h
            obtain rfl := Except.ok.inj h
            rcases List.mem_cons.1 mem with rfl | mem
            · simp
            · have := ih hrest mem
              simp only [List.length_cons]
              omega
        · exact step h mem

/-! ### Single passes -/

/-- The pass of a name and parameters. -/
def pass (name : String) (params : Option String) : Except Fault Pass :=
  let invalid (params : String) : Except Fault Pass := .error (.invalidParams name params)
  let plain (pass : Pass) : Except Fault Pass :=
    match params with
    | none => .ok pass
    | some params => invalid params
  match name with
  | "default" =>
    match OptLevel.ofText? (params.getD "") with
    | some level => .ok (.optimize level)
    | none => invalid (params.getD "")
  | "instrprof" =>
    match params with
    | none => .ok (.lowerIncrements ⟨false⟩)
    | some "atomic" => .ok (.lowerIncrements ⟨true⟩)
    | some params => invalid params
  | "globaldce" => plain .removeDeadSymbols
  | "strip-dead-prototypes" => plain .stripDeadPrototypes
  | "verify" => plain .verify
  | "no-op-module" => plain .noOp
  | _ => .error (.unknownPass name)

/-- The pass that a part spells: a name, and parameters from the first angle bracket to the end,
which has to close it. -/
def leaf (part : List Char) : Except Fault Pass :=
  let name := String.ofList (part.takeWhile (· ≠ '<'))
  match part.dropWhile (· ≠ '<') with
  | [] => pass name none
  | _ :: rest =>
    match Text.dropLast? '>' rest with
    | some params => pass name (some (String.ofList params))
    | none => .error (.trailingText name)

/-! ### Whole texts -/

/-- What opens a nested pipeline. -/
def moduleHead : List Char := ['m', 'o', 'd', 'u', 'l', 'e', '(']

mutual

/-- The passes of a text. -/
def passesOf (text : List Char) : Except Fault (List Pass) :=
  if text = [] then .error .emptyPipeline
  else
    match _h : split 0 text with
    | .error fault => .error fault
    | .ok parts => do
      let passes ← parts.attach.mapM fun ⟨part, _⟩ => passesOfPart part
      return passes.flatten
termination_by (text.length, 1)
decreasing_by
  have := length_le_of_mem_split ‹_› ‹part ∈ parts›
  simp only [Prod.lex_def]
  omega

/-- The passes of a part: those of a nested pipeline, or a single one. -/
def passesOfPart (part : List Char) : Except Fault (List Pass) :=
  if part = [] then .error .emptyName
  else
    match _h : Text.dropHead? moduleHead part with
    | none => (leaf part).map ([·])
    | some inner =>
      match _h' : Text.dropLast? ')' inner with
      | none => .error .unterminatedModule
      | some inner => passesOf inner
termination_by (part.length, 0)
decreasing_by
  have hpart := congrArg List.length (Text.dropHead?_eq_some_iff.1 ‹_›)
  have hinner := congrArg List.length (Text.dropLast?_eq_some_iff.1 ‹_›)
  simp only [List.length_append, List.length_cons] at hpart hinner
  simp only [Prod.lex_def]
  omega

end

/-- The pipeline that a text spells. -/
def parse (text : String) : Except PipelineError Pipeline :=
  match passesOf text.toList with
  | .ok passes => .ok ⟨passes⟩
  | .error fault => .error (fault.toError text)

end SourceCoverage.Pipeline
