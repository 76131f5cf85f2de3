import CssSelector.CommandLine.Report
import CssSelector.Proofs.Grouping.Beginnings
import CssSelector.Proofs.List.Branchwise
import CssSelector.Proofs.Nesting.Errors

/-!
Where the command line points to. The marker stands below the first character of the value that an error names. The line
above the marker is looked up in the lines of the text as it was given, which are the same as long as every line down to
it ends with a line feed. Main statement: `run_points_to_value`.
-/

namespace CssSelector
namespace CommandLine

/-- The namespaces that the options declare. -/
def Options.namespaces (o : Options) : Except String Namespaces :=
  let ns := match o.defaultNamespace with
    | some url => Namespaces.empty.withDefault url
    | none => .empty
  declareAll ns o.declarations

/-- How the options read a list. -/
def Options.config (o : Options) : Config := { forgiving := o.forgiving, relative := o.relative }

theorem run_eq_report {o : Options} {ns : Namespaces} (htokens : o.tokens = false) (hns : o.namespaces = .ok ns)
    (s : String) : run o s = report s (SelectorList.results ns o.config (ComponentValue.ofString s)) := by
  cases hdefault : o.defaultNamespace <;>
  · simp only [Options.namespaces, hdefault] at hns
    simp [run, htokens, hdefault, hns, Options.config]

theorem report_outcomes (s : String) (ps : List Branch) (e : SelectorError) :
    report s (SelectorList.outcomes ps (some e)) =
      .failure (String.join (ps.map selectorLine) ++ snippet s e) e.message := by
  induction ps with
  | nil => exact congrArg (Outcome.failure · e.message) (String.empty_append ..).symm
  | cons p ps ih =>
    rw [SelectorList.outcomes, List.map_cons, List.cons_append, report, ← SelectorList.outcomes, ih, List.map_cons,
      String.join_cons, String.append_assoc]
    rfl

/-- The marker stands below the code point that the value begins with. -/
theorem snippet_of_beginsInLine {s : String} {e : SelectorError} {v : ComponentValue} (hv : e.value = some v)
    {above : List (List Char)} {x y : List Char} (h : v.BeginsInLine s.toList above x y) :
    snippet s e = "error at " ++ v.text ++ "\n" ++ String.ofList ((Text.lines s.toList)[above.length]?.getD []) ++
      "\n" ++ spaces x.length ++ "^\n" := by
  obtain ⟨hline, hcolumn⟩ := h.location
  have hlocation : e.location = some v.location := congrArg (Option.map ComponentValue.location) hv
  rw [snippet, hlocation, hv]
  simp only [hline, hcolumn, Nat.add_sub_cancel_left, SelectorError.describe, Option.map_some, Option.getD_some,
    String.append_assoc]

/-- **The marker of an error points to the value that the error names.** A run that comes to an error prints the
selectors before it, a line of the text, and a marker behind as many blanks as there are code points in front of the
value in the line in which it begins. It is that line which is printed, if the lines of the text as it was given hold no
carriage return and no form feed down to the one that is printed. -/
theorem run_points_to_value {o : Options} {s : String} {ns : Namespaces} {e : SelectorError} {v : ComponentValue}
    (htokens : o.tokens = false) (hns : o.namespaces = .ok ns)
    (he : .error e ∈ SelectorList.results ns o.config (ComponentValue.ofString s)) (hv : e.value = some v) :
    ∃ above x y ps, v.BeginsInLine s.toList above x y ∧
      SelectorList.results ns o.config (ComponentValue.ofString s) = SelectorList.outcomes ps (some e) ∧
      run o s = .failure (String.join (ps.map selectorLine) ++ ("error at " ++ v.text ++ "\n" ++
        String.ofList ((Text.lines s.toList)[above.length]?.getD []) ++ "\n" ++ spaces x.length ++ "^\n")) e.message ∧
      ((∀ l ∈ (Text.lines s.toList).take (above.length + 1), '\r' ∉ l ∧ '\x0c' ∉ l) →
        (Text.lines s.toList)[above.length]?.getD [] = x ++ y) := by
  obtain ⟨d, hoccurs⟩ := SelectorList.exists_occurs_of_mem_results _ he hv
  obtain ⟨before, rest, htext, hbegins⟩ := hoccurs.exists_beginsAt
  obtain ⟨above, x, y, hinline⟩ := hbegins.exists_beginsInLine
  rw [← htext] at hinline
  obtain ⟨ps, hps⟩ := SelectorList.exists_results_eq_outcomes he
  refine ⟨above, x, y, ps, hinline, hps, ?_, fun hlines => ?_⟩
  · rw [run_eq_report htokens hns, hps, report_outcomes, snippet_of_beginsInLine hv hinline]
  · obtain ⟨below, hbelow⟩ := hinline.line
    rw [Text.getElem?_lines hlines, hbelow]
    simp

/-- In the second line of `a,` and `b [=x]`, a name is missing in front of the equals sign. -/
theorem run_points_into_brackets :
    ∃ s v e, s = "a,\r\nb [=x]" ∧ v = ComponentValue.token ⟨.delim '=', ⟨2, 4, 6⟩⟩ ∧
      e = SelectorError.expectedAttributeName (some v) ∧ ({} : Options).tokens = false ∧
      ({} : Options).namespaces = .ok .empty ∧
      .error e ∈ SelectorList.results .empty ({} : Options).config (ComponentValue.ofString s) ∧ e.value = some v ∧
      ∃ above x y, v.BeginsInLine s.toList above x y ∧ (Text.lines s.toList)[1]?.getD [] = x ++ y := by
  let v := ComponentValue.token ⟨.delim '=', ⟨2, 4, 6⟩⟩
  have hmem : .error (SelectorError.expectedAttributeName (some v)) ∈
      SelectorList.results .empty ({} : Options).config (ComponentValue.ofString "a,\r\nb [=x]") := by
    have hresults : SelectorList.results .empty ({} : Options).config (ComponentValue.ofString "a,\r\nb [=x]") =
        [.ok (.absolute ⟨.compound [.localName ⟨"a", "a"⟩], none⟩), .error (.expectedAttributeName (some v))] := by
      with_unfolding_all rfl
    rw [hresults]
    exact List.mem_cons_of_mem _ (List.mem_singleton_self _)
  obtain ⟨above, x, y, ps, hinline, -, -, hline⟩ := run_points_to_value (o := {}) rfl rfl hmem rfl
  have habove : above.length = 1 := Nat.add_left_cancel hinline.location.1.symm
  rw [habove] at hline
  refine ⟨_, v, _, rfl, rfl, rfl, rfl, rfl, hmem, rfl, above, x, y, hinline, hline (by decide)⟩

/-- In `a`, carriage return, `!b`, line feed, `c`, the exclamation mark begins the second line, but the third one is
printed. -/
theorem run_misses_line :
    ∃ s v e, s = "a\r!b\nc" ∧ v = ComponentValue.token ⟨.delim '!', ⟨2, 1, 2⟩⟩ ∧
      e = SelectorError.expectedCompound (some v) ∧
      SelectorList.results .empty ({} : Options).config (ComponentValue.ofString s) = [.error e] ∧ e.value = some v ∧
      v.BeginsInLine s.toList [['a']] [] ['!', 'b'] ∧ run {} s = .failure "error at !\nc\n^\n" e.message := by
  let v := ComponentValue.token ⟨.delim '!', ⟨2, 1, 2⟩⟩
  have hresults : SelectorList.results .empty ({} : Options).config (ComponentValue.ofString "a\r!b\nc") =
      [.error (.expectedCompound (some v))] := by
    with_unfolding_all rfl
  have hbegins : v.BeginsAt ['a', '\r'] ['!', 'b', '\n', 'c'] :=
    ⟨by simp [Text.Divided], rfl, by with_unfolding_all rfl⟩
  refine ⟨_, v, _, rfl, rfl, rfl, hresults, rfl, ⟨⟨_, _, rfl, hbegins, by decide⟩, [['c']], by decide⟩, ?_⟩
  rw [run_eq_report rfl rfl, hresults]
  with_unfolding_all rfl

end CommandLine
end CssSelector
