import MuseCodex.Transport.Dialects

/-!
# The tools of Responses Lite

Responses Lite takes the functions of a request in one namespace. The tools are walked once: hosted
tools are left out, functions and the tools of `functions` namespaces are put together, and the
place of the namespace is noted as the number of tools that were kept before the first of them
(`Walked`). After the walk the namespace is put there (`groupResponsesLiteTools_conserves`).
-/

namespace MuseCodex.Transport

open Text Json Fallible

/-! ## The sorts of tools -/

/-- The type of a tool. -/
def toolType (tool : Value) : Option String := (tool.get "type").bind Value.asStr

/-- Whether a tool is run by the provider. -/
def isHosted (tool : Value) : Bool := (toolType tool).any isHostedResponsesTool

/-- Whether a tool is a function or a custom tool. -/
def isDirect (tool : Value) : Bool :=
  toolType tool = some "function" || toolType tool = some "custom"

/-- Whether a tool is a namespace of functions. -/
def isFunctionsNamespace (tool : Value) : Bool :=
  toolType tool = some "namespace" && (tool.get "name").bind Value.asStr = some "functions"

/-- Whether a tool goes into the namespace. -/
def isGathered (tool : Value) : Bool := isDirect tool || isFunctionsNamespace tool

/-- Whether a tool stays as it is. -/
def isKept (tool : Value) : Bool := !isHosted tool && !isGathered tool

/-- The functions that a tool adds to the namespace. -/
def gathered (tool : Value) : List Value :=
  if isDirect tool then [tool]
  else if isFunctionsNamespace tool then ((tool.get "tools").bind Value.asArray).getD []
  else []

/-- The tools that stay as they are, of those before the first one that goes into the
namespace. -/
def keptBefore (tools : List Value) : List Value :=
  (tools.takeWhile fun tool => !isGathered tool).filter isKept

/-- A hosted tool does not go into the namespace. -/
theorem isGathered_of_isHosted {tool : Value} (h : isHosted tool = true) :
    isGathered tool = false := by
  unfold isHosted at h
  unfold isGathered isDirect isFunctionsNamespace
  cases htype : toolType tool with
  | none =>
    rw [htype] at h
    cases h
  | some type =>
    rw [htype, Option.any_some] at h
    have hnot : ∀ type, isHostedResponsesTool type = true →
        type ≠ "function" ∧ type ≠ "custom" ∧ type ≠ "namespace" := by
      intro type htype
      refine ⟨?_, ?_, ?_⟩
      all_goals
        rintro rfl
        exact absurd htype (by decide)
    obtain ⟨hfunction, hcustom, hnamespace⟩ := hnot type h
    simp [hfunction, hcustom, hnamespace]

/-! ## The walk -/

/-- What has been noted after some tools. -/
structure Walked (tools : List Value) (groups : ToolGroups) : Prop where
  functions : groups.functions = tools.flatMap gathered
  grouped : groups.grouped = tools.filter isKept
  /-- The place of the namespace is noted when the first tool goes into it. -/
  index : groups.index =
    if tools.any isGathered then some (keptBefore tools).length else none

/-- One more tool comes before the first one that goes into the namespace only if there was none
and it is none. -/
theorem keptBefore_append (tools : List Value) (tool : Value) :
    keptBefore (tools ++ [tool]) = if tools.any isGathered then keptBefore tools
      else tools.filter isKept ++ if isGathered tool then [] else [tool].filter isKept := by
  unfold keptBefore
  induction tools with
  | nil => cases hgathered : isGathered tool <;> simp [hgathered]
  | cons first tools ih =>
    cases hfirst : isGathered first with
    | true => simp [hfirst]
    | false =>
      rw [List.cons_append, List.takeWhile_cons_of_pos (by simp [hfirst]), List.filter_cons, ih,
        List.any_cons, hfirst, Bool.false_or, List.takeWhile_cons_of_pos (by simp [hfirst])]
      cases hkept : isKept first <;> cases tools.any isGathered <;> simp [hkept]

/-- The place of the namespace is one of those between the tools that stay. -/
theorem keptBefore_prefix (tools : List Value) : keptBefore tools <+: tools.filter isKept :=
  (List.takeWhile_prefix _).filter isKept

/-- What the walk does with a tool. -/
theorem groupTool_cases {groups groups' : ToolGroups} {tool : Value}
    (h : groupTool groups tool = .ok groups') :
    (isHosted tool = true ∧ groups' = groups) ∨
    (isHosted tool = false ∧ isGathered tool = true ∧ ∃ description,
      groups' = ToolGroups.addFunctions (gathered tool) { groups with description }) ∨
    (isKept tool = true ∧ groups' = { groups with grouped := groups.grouped ++ [tool] }) := by
  unfold groupTool at h
  unfold isHosted isKept isHosted gathered isGathered isDirect isFunctionsNamespace toolType
  cases htype : (tool.get "type").bind Value.asStr with
  | none =>
    rw [htype] at h
    cases h
  | some type =>
    rw [htype] at h
    dsimp only at h
    rw [Option.any_some]
    split at h
    · rename_i hhosted
      cases h
      exact .inl ⟨hhosted, rfl⟩
    · rename_i hhosted
      rw [Bool.not_eq_true] at hhosted
      refine .inr ?_
      split at h
      · rename_i hdirect
        cases h
        refine .inl ⟨hhosted, ?_, groups.description, ?_⟩
        · simp_all
        · rw [if_pos (by simpa using hdirect)]
      · rename_i hdirect
        split at h
        · rename_i hnamespace
          refine .inl ⟨hhosted, ?_, ?_⟩
          · simp_all
          · split at h
            · cases h
            · rename_i tools htools
              cases h
              rw [if_neg (by simpa using hdirect), if_pos (by simpa using hnamespace), htools]
              split
              · exact ⟨_, rfl⟩
              · exact ⟨_, rfl⟩
        · -- Any other tool is kept as it is.
          rename_i hnamespace
          cases h
          refine .inr ⟨?_, rfl⟩
          simp_all [imp_iff_not_or]

/-- One more tool. -/
theorem Walked.step {tools : List Value} {groups groups' : ToolGroups} {tool : Value}
    (h : Walked tools groups) (hstep : groupTool groups tool = .ok groups') :
    Walked (tools ++ [tool]) groups' := by
  have hgathers (hnot : isGathered tool = false) : gathered tool = [] := by
    unfold isGathered at hnot
    rw [Bool.or_eq_false_iff] at hnot
    simp [gathered, hnot.1, hnot.2]
  rcases groupTool_cases hstep with
    ⟨hhosted, rfl⟩ | ⟨hhosted, hgathered, description, rfl⟩ | ⟨hkept, rfl⟩
  · have hnot := isGathered_of_isHosted hhosted
    have hdropped : isKept tool = false := by simp [isKept, hhosted]
    refine ⟨?_, ?_, ?_⟩
    · simp [h.functions, hgathers hnot]
    · simp [h.grouped, hdropped]
    · rw [h.index, keptBefore_append, List.any_append]
      cases hany : tools.any isGathered <;> simp [hnot]
  · have hdropped : isKept tool = false := by simp [isKept, hgathered]
    refine ⟨?_, ?_, ?_⟩
    · simp [ToolGroups.addFunctions, h.functions]
    · simp [ToolGroups.addFunctions, h.grouped, hdropped]
    · -- The place is noted now, unless an earlier tool has noted it.
      rw [ToolGroups.addFunctions, h.index, h.grouped, keptBefore_append, List.any_append]
      cases hany : tools.any isGathered <;> simp [hgathered]
  · have hnot : isGathered tool = false := by
      unfold isKept at hkept
      rw [Bool.and_eq_true] at hkept
      simpa using hkept.2
    refine ⟨?_, ?_, ?_⟩
    · simp [h.functions, hgathers hnot]
    · simp [h.grouped, hkept]
    · rw [h.index, keptBefore_append, List.any_append]
      cases hany : tools.any isGathered <;> simp [hnot]

/-- The walk over all tools. -/
theorem walked_of_run {tools : List Value} {groups : ToolGroups}
    (h : tools.foldlM groupTool {} = .ok groups) : Walked tools groups := by
  have hrun := foldlM_inv (I := Walked) (fun hinv hstep => hinv.step hstep)
    (⟨rfl, rfl, rfl⟩ : Walked [] {}) h
  rwa [List.nil_append] at hrun

/-! ## The result -/

/-- The namespace that the functions of a request are put into. -/
def functionsNamespace (description : String) (functions : List Value) : Value :=
  .obj [("type", .string "namespace"), ("name", .string "functions"),
    ("description", .string description), ("tools", .array functions)]

/-- Grouped tools, compared with the tools that they are made of. -/
structure Conserves (tools grouped : List Value) : Prop where
  /-- Without functions, the tools are those that stay. -/
  without : tools.flatMap gathered = [] → grouped = tools.filter isKept
  /-- Otherwise the namespace with all of them stands among those that stay, after exactly those
  that stand before the first tool that went into it. -/
  place : tools.flatMap gathered ≠ [] → ∃ description kept,
    tools.filter isKept = keptBefore tools ++ kept ∧
      grouped = keptBefore tools ++
        functionsNamespace description (tools.flatMap gathered) :: kept
  /-- There is at most one namespace of functions. -/
  one : (grouped.filter isFunctionsNamespace).length ≤ 1
  /-- There is one exactly when there are functions. -/
  present : (∃ tool ∈ grouped, isFunctionsNamespace tool = true) ↔
    ∃ tool ∈ tools, isDirect tool = true ∨ isFunctionsNamespace tool = true ∧
      ∃ nested ≠ [], tool.get "tools" = some (.array nested)

/-- The functions of a tool: there are some exactly when it is one itself, or a namespace of
functions that is not empty. -/
theorem gathered_ne_nil_iff {tool : Value} :
    gathered tool ≠ [] ↔ isDirect tool = true ∨ isFunctionsNamespace tool = true ∧
      ∃ nested ≠ [], tool.get "tools" = some (.array nested) := by
  unfold gathered
  split_ifs with hdirect hnamespace
  · simp [hdirect]
  · simp only [hdirect, hnamespace, true_and, Bool.false_eq_true, false_or]
    constructor
    · intro hne
      cases htools : (tool.get "tools").bind Value.asArray with
      | none => simp [htools] at hne
      | some nested =>
        rw [htools] at hne
        obtain ⟨v, hv, harray⟩ := Option.bind_eq_some_iff.mp htools
        exact ⟨nested, hne, by rw [hv, Value.asArray_eq_some harray]⟩
    · rintro ⟨nested, hne, htools⟩
      rw [htools]
      exact hne
  · simp [hdirect, hnamespace]

/-- A tool that stays is no namespace of functions. -/
theorem isFunctionsNamespace_of_mem_kept {tools : List Value} {tool : Value}
    (h : tool ∈ tools.filter isKept) : isFunctionsNamespace tool = false := by
  have hkept := (List.mem_filter.mp h).2
  unfold isKept isGathered at hkept
  rw [Bool.and_eq_true, Bool.not_eq_true', Bool.not_eq_true', Bool.or_eq_false_iff] at hkept
  exact hkept.2.2

/-- The namespace that is made is one of functions. -/
theorem isFunctionsNamespace_functionsNamespace (description : String) (functions : List Value) :
    isFunctionsNamespace (functionsNamespace description functions) = true := by
  simp [isFunctionsNamespace, toolType, functionsNamespace, Value.obj, Map.ofEntries]

/-- Inserting at the length of a first part puts an item after it. -/
theorem insertIdx_length_append {α : Type} (before after : List α) (x : α) :
    (before ++ after).insertIdx before.length x = before ++ x :: after := by
  induction before with
  | nil => rfl
  | cons y before ih =>
    rw [List.cons_append, List.length_cons, List.insertIdx_succ_cons, ih, List.cons_append]

/-- The tools after the walk. -/
theorem Walked.result {tools : List Value} {groups : ToolGroups} (h : Walked tools groups)
    {kept : List Value} (hkept : keptBefore tools ++ kept = tools.filter isKept) :
    (match groups.index with
      | some index =>
        if groups.functions = [] then groups.grouped
        else groups.grouped.insertIdx index
          (functionsNamespace groups.description groups.functions)
      | none => groups.grouped) =
    if tools.flatMap gathered = [] then tools.filter isKept
    else keptBefore tools ++
      functionsNamespace groups.description (tools.flatMap gathered) :: kept := by
  rw [h.index, h.functions, h.grouped]
  by_cases hany : tools.any isGathered = true
  · rw [if_pos hany]
    dsimp only
    split_ifs
    · rfl
    · rw [← hkept, insertIdx_length_append]
  · -- No tool goes into the namespace, so there are no functions.
    have hempty : tools.flatMap gathered = [] := by
      rw [List.flatMap_eq_nil_iff]
      intro tool htool
      by_contra hne
      have hgathered : isGathered tool = true := by
        unfold isGathered
        rcases gathered_ne_nil_iff.mp hne with hdirect | ⟨hnamespace, -⟩
        · rw [hdirect, Bool.true_or]
        · rw [hnamespace, Bool.or_true]
      exact hany (List.any_eq_true.mpr ⟨tool, htool, hgathered⟩)
    rw [if_neg hany, if_pos hempty]

/-- Grouping loses no tool, adds none but the namespace, and changes no order. The place of the
namespace is within the tools that stay. -/
theorem groupResponsesLiteTools_conserves (tools grouped : List Value)
    (h : groupResponsesLiteTools tools = .ok grouped) :
    Conserves tools grouped ∧ ∃ groups, tools.foldlM groupTool {} = .ok groups ∧
      ∀ index ∈ groups.index, index ≤ groups.grouped.length := by
  obtain ⟨groups, hrun, h⟩ := bind_eq_ok.mp h
  have hwalked := walked_of_run hrun
  obtain ⟨kept, hkept⟩ := keptBefore_prefix tools
  have hnone : ∀ tool ∈ tools.filter isKept, isFunctionsNamespace tool = false :=
    fun tool htool => isFunctionsNamespace_of_mem_kept htool
  have hgrouped := (Except.ok.inj h).symm.trans (hwalked.result hkept)
  have hfunctions : tools.flatMap gathered ≠ [] ↔
      ∃ tool ∈ tools, isDirect tool = true ∨ isFunctionsNamespace tool = true ∧
        ∃ nested ≠ [], tool.get "tools" = some (.array nested) := by
    simp only [ne_eq, List.flatMap_eq_nil_iff, not_forall, exists_prop, ← gathered_ne_nil_iff]
  constructor
  · by_cases hempty : tools.flatMap gathered = []
    · rw [if_pos hempty] at hgrouped
      have hnamespaces : grouped.filter isFunctionsNamespace = [] := by
        rw [hgrouped, List.filter_eq_nil_iff]
        simpa using hnone
      refine ⟨fun _ => hgrouped, fun hne => absurd hempty hne, by simp [hnamespaces], ?_⟩
      rw [← hfunctions]
      refine iff_of_false ?_ fun hne => hne hempty
      rintro ⟨tool, htool, hnamespace⟩
      rw [hgrouped] at htool
      rw [hnone tool htool] at hnamespace
      cases hnamespace
    · rw [if_neg hempty] at hgrouped
      have hone := isFunctionsNamespace_functionsNamespace groups.description
        (tools.flatMap gathered)
      -- On both sides of the namespace there is no other.
      have hsides : (keptBefore tools).filter isFunctionsNamespace = [] ∧
          kept.filter isFunctionsNamespace = [] := by
        rw [← List.append_eq_nil_iff, ← List.filter_append, hkept, List.filter_eq_nil_iff]
        simpa using hnone
      refine ⟨fun heq => absurd heq hempty, fun _ => ⟨_, kept, hkept.symm, hgrouped⟩, ?_, ?_⟩
      · rw [hgrouped, List.filter_append, List.filter_cons_of_pos hone, hsides.1, hsides.2]
        exact le_refl 1
      · rw [← hfunctions]
        refine iff_of_true ⟨_, ?_, hone⟩ hempty
        rw [hgrouped]
        simp
  · refine ⟨groups, hrun, fun index hindex => ?_⟩
    rw [hwalked.index] at hindex
    rw [hwalked.grouped, ← hkept, List.length_append]
    split_ifs at hindex
    · cases hindex
      omega
    · cases hindex

/-- A kept namespace, a hosted tool, two namespaces of functions, the first of them empty, and a
function. -/
def mixedTools : List Value :=
  [.obj [("type", .string "namespace"), ("name", .string "muse"), ("tools", .array [])],
    .obj [("type", .string "web_search")],
    .obj [("type", .string "namespace"), ("name", .string "functions"), ("tools", .array [])],
    .obj [("type", .string "local_shell")],
    .obj [("type", .string "function"), ("name", .string "f")],
    .obj [("type", .string "namespace"), ("name", .string "functions"),
      ("tools", .array [.obj [("type", .string "function"), ("name", .string "g")]])]]

/-- The functions stand where the empty namespace was. -/
theorem groupResponsesLiteTools_conserves_mixed :
    ∃ grouped, groupResponsesLiteTools mixedTools = .ok grouped ∧
      (mixedTools.flatMap gathered).length = 2 ∧ (keptBefore mixedTools).length = 1 ∧
      ∃ description kept, kept.length = 1 ∧ grouped = keptBefore mixedTools ++
        functionsNamespace description (mixedTools.flatMap gathered) :: kept := by
  obtain ⟨grouped, hok⟩ : ∃ grouped, groupResponsesLiteTools mixedTools = .ok grouped :=
    exists_eq_ok (by decide)
  have hfunctions : (mixedTools.flatMap gathered).length = 2 := by decide
  have hbefore : (keptBefore mixedTools).length = 1 := by decide
  have hlength : (mixedTools.filter isKept).length = 2 := by decide
  obtain ⟨hconserves, -⟩ := groupResponsesLiteTools_conserves mixedTools grouped hok
  obtain ⟨description, kept, hkept, hgrouped⟩ := hconserves.place (by
    intro hempty
    rw [hempty] at hfunctions
    cases hfunctions)
  refine ⟨grouped, hok, hfunctions, hbefore, description, kept, ?_, hgrouped⟩
  rw [hkept, List.length_append] at hlength
  omega

end MuseCodex.Transport
