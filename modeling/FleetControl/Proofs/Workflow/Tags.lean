import FleetControl.Proofs.Fleet.Records

/-!
# The language of event tags

What is proved:

1. `EventTag.known?_eq_some_iff` and `EventTag.bare_eq`: the kind of a tag is looked up in a
   vocabulary of seven words, and at most one leading word is taken off before that.
2. `EventTag.known?_bare_iff`: the look-up finds a kind exactly for the texts that name it
   (`EventTag.Names`), which are said without taking anything off.
3. `EventTag.not_names_twice`: two leading words name nothing, since no word of the vocabulary begins
   with one.
4. `EventTag.parse_language` is the whole, with the tags that are written and read again.
-/

namespace FleetControl

namespace EventTag

/-- The words of the vocabulary with the kind of event that each of them names. -/
def vocabulary : List (String × EventTag) :=
  [("started", .started), ("start", .started), ("debug", .debug), ("completed", .completed),
    ("complete", .completed), ("failed", .failed), ("failure", .failed)]

/-- The words that may stand in front of a word of the vocabulary. -/
def leads : List String :=
  ["step", "workflowstep"]

/-- Whether a text names a kind of event: it is a word of the vocabulary, alone or behind one leading
word. -/
def Names (s : String) (tag : EventTag) : Prop :=
  ∃ word, (word, tag) ∈ vocabulary ∧ (s = word ∨ ∃ lead ∈ leads, s = lead ++ word)

/-- A tag without the blanks around it, in lower case. -/
def folded (s : String) : String :=
  Text.lower (Text.trim s)

/-! ## Taking a leading word off -/

theorem known?_eq_some_iff {word : String} {tag : EventTag} :
    known? word = some tag ↔ (word, tag) ∈ vocabulary := by
  simp only [known?, vocabulary, List.mem_cons, Prod.mk.injEq, List.not_mem_nil, or_false]
  grind

theorem bare_workflowstep (rest : List Char) : bare ("workflowstep".toList ++ rest) = rest := by
  unfold bare
  rw [Text.after?_append]

theorem bare_step (rest : List Char) : bare ("step".toList ++ rest) = rest := by
  have longer : Text.after? "workflowstep".toList ("step".toList ++ rest) = none := rfl
  unfold bare
  rw [longer, Text.after?_append]
  rfl

theorem bare_eq (cs : List Char) :
    bare cs = cs ∨ ∃ lead ∈ leads, cs = lead.toList ++ bare cs := by
  unfold bare
  cases longer : Text.after? "workflowstep".toList cs with
  | some rest =>
    exact .inr ⟨"workflowstep", by simp [leads], Text.eq_append_of_after? longer⟩
  | none =>
    cases shorter : Text.after? "step".toList cs with
    | some rest => exact .inr ⟨"step", by simp [leads], Text.eq_append_of_after? shorter⟩
    | none => exact .inl rfl

theorem bare_lead {lead : String} (h : lead ∈ leads) (rest : List Char) :
    bare (lead.toList ++ rest) = rest := by
  simp only [leads, List.mem_cons, List.not_mem_nil, or_false] at h
  rcases h with rfl | rfl
  · exact bare_step rest
  · exact bare_workflowstep rest

/-- No word of the vocabulary begins with a leading word, although some share letters with one. -/
theorem bare_word {word : String} {tag : EventTag} (h : (word, tag) ∈ vocabulary) :
    bare word.toList = word.toList := by
  have all : ∀ kv ∈ vocabulary, bare kv.1.toList = kv.1.toList := by decide
  exact all _ h

/-! ## The texts that name a kind -/

theorem known?_bare_iff {s : String} {tag : EventTag} :
    known? (String.ofList (bare s.toList)) = some tag ↔ Names s tag := by
  rw [known?_eq_some_iff]
  constructor
  · intro member
    refine ⟨_, member, ?_⟩
    rcases bare_eq s.toList with same | ⟨lead, known, split⟩
    · left
      rw [same, String.ofList_toList]
    · right
      refine ⟨lead, known, ?_⟩
      rw [← String.toList_inj, String.toList_append, String.toList_ofList]
      exact split
  · rintro ⟨word, member, rfl | ⟨lead, known, rfl⟩⟩
    · rw [bare_word member, String.ofList_toList]
      exact member
    · rw [String.toList_append, bare_lead known, String.ofList_toList]
      exact member

/-- Two leading words name nothing, whatever follows them. -/
theorem not_names_twice {first second : String} (h : first ∈ leads) (h' : second ∈ leads)
    (rest : String) (tag : EventTag) : ¬ Names (first ++ second ++ rest) tag := by
  intro names
  have taken := known?_eq_some_iff.mp (known?_bare_iff.mpr names)
  rw [String.append_assoc, String.toList_append, bare_lead h, String.ofList_toList] at taken
  -- the first word is off, and what is left begins with the second: no word does
  have kept := bare_word taken
  rw [String.toList_append, bare_lead h'] at kept
  have length := congrArg List.length kept
  simp only [List.length_append] at length
  have long : 0 < second.toList.length := by
    simp only [leads, List.mem_cons, List.not_mem_nil, or_false] at h'
    rcases h' with rfl | rfl <;> decide
  omega

theorem parse_of_names {s : String} {tag : EventTag} (h : Names (folded s) tag) :
    parse s = tag := by
  have known := known?_bare_iff.mpr h
  unfold folded at known
  simp only [parse, known, Option.getD_some]

theorem parse_of_nameless {s : String} (h : ¬ ∃ tag, Names (folded s) tag) :
    parse s = .other s := by
  cases known : known? (String.ofList (bare (folded s).toList)) with
  | none =>
    unfold folded at known
    simp only [parse, known, Option.getD_none]
  | some tag => exact absurd ⟨tag, known?_bare_iff.mp known⟩ h

/-- A tag is of a kind exactly if it names the kind, blanks around it and letter case aside: with one
leading word at most, and so in one way only. Any other tag is kept as it was given. A tag that was
written, plainly or as JSON, is read as the tag that it was. -/
theorem parse_language (s : String) :
    (∀ tag, parse s = tag ↔
      Names (folded s) tag ∨ tag = .other s ∧ ¬ ∃ known, Names (folded s) known) ∧
    (¬ ∃ first ∈ leads, ∃ second ∈ leads, ∃ rest,
      folded s = first ++ second ++ rest ∧ parse s ≠ .other s) ∧
    parse (parse s).text = parse s ∧
    (Json.read Json.Decoder.string (Json.string (parse s).text).compact).map parse =
      .ok (parse s) := by
  refine ⟨fun tag => ⟨?_, ?_⟩, ?_, parse_text s, ?_⟩
  · rintro rfl
    by_cases named : ∃ known, Names (folded s) known
    · obtain ⟨known, names⟩ := named
      rw [parse_of_names names]
      exact .inl names
    · exact .inr ⟨parse_of_nameless named, named⟩
  · rintro (names | ⟨rfl, nameless⟩)
    · exact parse_of_names names
    · exact parse_of_nameless nameless
  · rintro ⟨first, h, second, h', rest, twice, known⟩
    refine known (parse_of_nameless ?_)
    rintro ⟨tag, names⟩
    rw [twice] at names
    exact not_names_twice h h' rest tag names
  · have written : Json.Tree.parse (Json.string (parse s).text).compact = .ok (.string (parse s).text) :=
      Json.Tree.parse_compact trivial
    simp only [Json.read, written, Json.Decoder.string, Except.map]
    rw [parse_text]

/-- The blank at the end of the first is wider than ASCII, and the letter K of the last is no ASCII
letter. -/
example : parse " WorkflowStepFAILED\u2003" = .failed ∧ parse "stepstarted" = .started ∧
    parse "StepStepFailed" = .other "StepStepFailed" ∧ parse "wor\u212aflowstepfailed" =
      .other "wor\u212aflowstepfailed" := by decide +kernel

end EventTag

end FleetControl
