import SourceCoverage.Pipeline.Execution
import SourceCoverage.Proofs.Pipeline.Grammar

/-!
# Printed Pipelines

The text of a pipeline is written pass by pass, with a comma between two of them, and knows nothing
of the brackets that the reader looks at. That it is read back as the same pipeline is said by the
grammar: the text of each pass is an element, and elements with commas between them are a pipeline.

The pipeline without passes is the exception. Its text is empty, and the empty text is no pipeline;
but no text is read as a pipeline without passes either, so that whatever is read, or is built from
what is read, can be printed and read again.

## Main results

* `Pipeline.derives_text`: the text of a pipeline that has passes derives from the grammar.
* `Pipeline.Derives.ne_nil`: what derives from the grammar has passes.
* `Pipeline.parse_text`: printing and reading a pipeline changes nothing.
-/

namespace SourceCoverage.Pipeline

/-- A text derives from at least one pass. -/
theorem Derives.ne_nil {symbol : Nonterminal} {text : List Char} {passes : List Pass}
    (h : Derives symbol text passes) : passes ≠ [] := by
  induction h with
  | pass p => exact List.cons_ne_nil _ _
  | nested _ ih => exact ih
  | last _ ih => exact ih
  | more _ _ ih _ => exact List.append_ne_nil_of_left_ne_nil ih _

/-- **The text of a pipeline** that has passes derives from the grammar, with each pass a leaf. -/
theorem derives_text {pipeline : Pipeline} (hne : pipeline.passes ≠ []) :
    Derives .pipeline pipeline.text.toList pipeline.passes := by
  have helements : List.Forall₂ (Derives .element) (pipeline.passes.map (·.text.toList))
      (pipeline.passes.map ([·])) := by
    rw [List.forall₂_map_left_iff, List.forall₂_map_right_iff, List.forall₂_same]
    exact fun pass _ => .pass pass
  have hjoined := derives_intercalate helements (by simpa using hne)
  rw [← List.flatMap_def, List.flatMap_singleton'] at hjoined
  rw [text, String.toList_intercalate, List.map_map]
  exact hjoined

/-- A text is read as the passes that it derives from. -/
theorem parse_eq_ok_of_derives {text : String} {passes : List Pass}
    (h : Derives .pipeline text.toList passes) : parse text = .ok ⟨passes⟩ := by
  have hpasses : passesOf text.toList = .ok passes := h.accepted.2
  rw [parse, hpasses]

/-- What a text is read as has passes. -/
theorem passes_ne_nil_of_parse {text : String} {pipeline : Pipeline}
    (h : parse text = .ok pipeline) : pipeline.passes ≠ [] := by
  rw [parse] at h
  split at h
  · next passes hpasses =>
      obtain rfl := Except.ok.inj h
      exact (derives_of_passesOf hpasses).ne_nil
  · cases h

/-- **Printing and reading a pipeline changes nothing**, unless it has no passes, in which case its
text is refused as empty. So a pipeline that is read from a text is read from its own text as well,
and one that is built from a text is read from its own text as the lowering pass in front of the
passes of the text. -/
theorem parse_text :
    (∀ pipeline : Pipeline, parse pipeline.text
      = if pipeline.passes = [] then .error (.malformed "" "empty pipeline") else .ok pipeline) ∧
    ∀ text pipeline, parse text = .ok pipeline → parse pipeline.text = .ok pipeline ∧
      ∀ lowering, ∃ built, build (some lowering) text = .ok built ∧
        parse built.text = .ok ⟨.lowerIncrements lowering :: pipeline.passes⟩ := by
  have hparse : ∀ pipeline : Pipeline, pipeline.passes ≠ [] →
      parse pipeline.text = .ok pipeline := fun pipeline hne =>
    parse_eq_ok_of_derives (derives_text hne)
  refine ⟨fun pipeline => ?_, fun text pipeline htext => ⟨?_, fun lowering => ?_⟩⟩
  · split
    · next hnil =>
        have hempty : pipeline.text = "" := by rw [Pipeline.text, hnil]; rfl
        rw [hempty]
        cbv
    · next hne => exact hparse pipeline hne
  · exact hparse pipeline (passes_ne_nil_of_parse htext)
  · refine ⟨⟨.lowerIncrements lowering :: pipeline.passes⟩, ?_, hparse _ (List.cons_ne_nil _ _)⟩
    rw [build, htext]
    rfl

/-- A nested pipeline is printed without its brackets. -/
theorem parse_text_nested :
    parse "module(globaldce,default<Os>),verify"
      = .ok ⟨[.removeDeadSymbols, .optimize .Os, .verify]⟩ ∧
    parse "globaldce,default<Os>,verify" = .ok ⟨[.removeDeadSymbols, .optimize .Os, .verify]⟩ ∧
    ∃ built, build (some ⟨true⟩) "module(globaldce,default<Os>),verify" = .ok built ∧
      parse built.text
        = .ok ⟨[.lowerIncrements ⟨true⟩, .removeDeadSymbols, .optimize .Os, .verify]⟩ := by
  have hnested : parse "module(globaldce,default<Os>),verify"
      = .ok ⟨[.removeDeadSymbols, .optimize .Os, .verify]⟩ := by cbv
  obtain ⟨hagain, hbuilt⟩ := parse_text.2 _ _ hnested
  exact ⟨hnested, hagain, hbuilt ⟨true⟩⟩

end SourceCoverage.Pipeline
