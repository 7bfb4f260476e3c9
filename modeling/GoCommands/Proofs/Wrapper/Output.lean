import GoCommands.Proofs.Path
import GoCommands.Proofs.Text.Utf8
import GoCommands.Proofs.Wrapper.Declarations
import GoCommands.Proofs.Wrapper.Planning
import GoCommands.Proofs.Wrapper.Selection

/-! # The file that a run writes

With a tag that is a single atom the output has a name in the directory, and a scan for this tag selects
it.
-/

namespace GoCommands

theorem Go.IsWord.slash_not_mem {w : Text} (h : Go.IsWord w) : '/' ∉ w := h.not_mem (by decide) (by decide)

namespace Generate

/-- The tag, if there is one, is a single atom. -/
def AtomTag (options : GenerateOptions) : Prop := ∀ t ∈ options.buildTag, Constraint.IsAtom t

def outputName (options : GenerateOptions) (package : Text) : Text :=
  Walk.generatedStart (effectiveTag options) ++ package ++ Walk.sourceExtension

variable {options : GenerateOptions} {package : Text}

theorem AtomTag.effective (h : AtomTag options) : Constraint.IsAtom (effectiveTag options) := by
  rw [effectiveTag]
  cases hTag : options.buildTag with
  | none => exact ⟨by decide, List.all_eq_true.mp (by decide)⟩
  | some tag => exact h tag hTag

theorem AtomTag.newline_not_mem (h : AtomTag options) : ∀ t ∈ options.buildTag, '\n' ∉ t :=
  fun t ht => (h t ht).not_mem_of_isWhite (by decide)

theorem outputName_eq (options : GenerateOptions) (package : Text) : outputName options package =
    "generated_".toList ++ effectiveTag options ++ ['_'] ++ package ++ Walk.sourceExtension := rfl

theorem isName_outputName (hTag : AtomTag options) (hPackage : Go.IsWord package) :
    Path.IsName (outputName options package) := by
  have hSlash : '/' ∉ outputName options package := by
    have hFixed : '/' ∉ "generated_".toList ∧ '/' ∉ ['_'] ∧ '/' ∉ Walk.sourceExtension := by decide
    have hAtom : '/' ∉ effectiveTag options := fun h =>
      absurd (hTag.effective.tagChars '/' h) (by decide)
    rw [outputName_eq, List.mem_append, List.mem_append, List.mem_append, List.mem_append]
    rintro ((((h | h) | h) | h) | h)
    · exact hFixed.1 h
    · exact hAtom h
    · exact hFixed.2.1 h
    · exact hPackage.slash_not_mem h
    · exact hFixed.2.2 h
  have hHead : (outputName options package).head? = some 'g' := by
    have hStart : "generated_".toList = 'g' :: "enerated_".toList := by decide
    rw [outputName_eq, hStart]
    rfl
  refine ⟨⟨?_, hSlash, ?_⟩, ?_⟩ <;> (intro hEq; rw [hEq] at hHead; cases hHead)

theorem outputName_cut (options : GenerateOptions) (package : Text) : outputName options package =
    "generated_".toList ++ effectiveTag options ++ '_' :: package ++ Walk.sourceExtension := by
  rw [outputName_eq, List.append_assoc ("generated_".toList ++ effectiveTag options) ['_'] package]
  rfl

/-- The output is taken for a test when the package is `test` or has a name that ends with `_test`. -/
theorem isSourceFile_outputName (options : GenerateOptions) (package : Text) :
    Walk.isSourceFile (outputName options package) = !Text.endsWith "_test".toList ('_' :: package) := by
  have hName := outputName_cut options package
  have hExtension : Text.endsWith Walk.sourceExtension (outputName options package) = true := by
    rw [hName]
    exact Text.endsWith_append [] Walk.sourceExtension _
  have hTest : Text.endsWith Walk.testSuffix (outputName options package) =
      Text.endsWith "_test".toList ('_' :: package) := by
    have hSuffix : Walk.testSuffix = "_test".toList ++ Walk.sourceExtension := by decide
    have hReverse : "_test".toList.reverse = "tset".toList ++ ['_'] := by decide
    rw [hName, hSuffix, Text.endsWith_append, Text.endsWith, Text.endsWith, hReverse, List.reverse_append,
      List.reverse_cons, List.append_assoc, List.singleton_append]
    exact Text.startsWith_cut (by decide) _ _
  rw [Walk.isSourceFile, hExtension, hTest, Bool.true_and]

theorem readTagged_output (hTag : AtomTag options) (hOptions : Admissible options) (hPackage : Go.IsWord package)
    {functions : List WrappedFunction} (hNames : ∀ f ∈ functions, Go.IsWord f.name) {fs : FileSystem} {path : Path}
    (hBytes : fs.bytes path =
      .ok (Utf8.encode (Layout.normalize (Wrapper.unit package options.buildTag functions)))) :
    Walk.readTagged fs path (scanTag options) =
      .ok (some (Layout.normalize (Wrapper.unit package options.buildTag functions))) := by
  have hSelects := fun u => Wrapper.selects_normalize_iff hPackage hTag hNames u
  have hSelected : (scanTag options).any (fun t => !Constraint.selects
      (Layout.normalize (Wrapper.unit package options.buildTag functions)) t) = false := by
    rw [scanTag]
    cases hOnly : options.onlyTagged with
    | false => rfl
    | true =>
      cases hBuild : options.buildTag with
      | none =>
        rw [Admissible, hOnly, hBuild] at hOptions
        cases hOptions
      | some tag =>
        rw [hBuild] at hSelects
        simp [effectiveTag, hBuild, hSelects]
  rw [Walk.readTagged, hBytes]
  simp only [Utf8.decodeLossy_encode, Utf8.decode_encode, hSelected, Bool.false_eq_true, if_false]

/-- The text that a run writes. -/
def outputText (fs : FileSystem) (options : GenerateOptions) (package : Text) : Text :=
  Layout.normalize (Wrapper.unit package options.buildTag (wrappedFunctions fs options))

def outputFile (fs : FileSystem) (options : GenerateOptions) (package : Text) : TaggedFile :=
  ⟨outputPath options package, outputText fs options package⟩

/-- The output declares the wrapper types and nothing that a scan wraps or links. -/
theorem parse_outputText (hTag : AtomTag options) (hPackage : Go.IsWord package) (fs : FileSystem) :
    ∃ unit, Go.SourceFile.parse (outputText fs options package) = some unit ∧ unit.packageName = some package ∧
      unit.typeSpecs = (wrappedFunctions fs options).map Wrapper.wrapperSpec ∧ unit.functions = [] :=
  Wrapper.parse_normalize_unit hPackage hTag.newline_not_mem fun _ hf => Wrote.names_wrappedFunctions hf

theorem selects_outputText_iff (hTag : AtomTag options) (hPackage : Go.IsWord package) (fs : FileSystem)
    (u : Text) : Constraint.selects (outputText fs options package) u ↔ options.buildTag = some u :=
  Wrapper.selects_normalize_iff hPackage hTag (fun _ hf => (Wrote.names_wrappedFunctions hf).1) u

end Generate

end GoCommands
