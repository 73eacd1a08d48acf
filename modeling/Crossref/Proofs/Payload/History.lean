import Crossref.Payload
import Crossref.Proofs.Index.Paths
import Crossref.Proofs.Resolve.Agreement
import Crossref.Proofs.Tree.Spans

/-!
# Proofs — payloads — reading a file anew with the text it had

A payload is made of what an index answers, so two projects whose indexes agree give the same
payloads.  A file that is read anew with the text it had is put in its own place among the files,
but its symbols go behind all others.  Reading it once more changes nothing, and already the first
time nothing changes for a file behind which no declaration has one of its qualified names.  Where
there is one, the declarations with the name are tried in another order afterwards: a compiled
function is then shown from another of the overloads that fit it.

* `extract_eq`: projects with indexes that agree.
* `extract_update`: a file of a project that is read anew.
-/

namespace Crossref

open Index (Agree Consistent LastOfItsNames)

/-! ### Over indexes that agree -/

section Agreeing

variable {i j : Index} (h : Agree i j)
include h

theorem Slice.sourceOf?_eq : sourceOf? i = sourceOf? j := by
  funext f n
  simp only [sourceOf?, h.symbolsAt, h.sourceEquivalent?, h.file?]

theorem Slice.ofNode_eq : ofNode i = ofNode j := by
  funext f n origin
  rw [ofNode, ofNode, sourceOf?_eq h]

/-- Slices are made of what the indexes agree on. -/
theorem Slice.ofSymbol_eq : ofSymbol i = ofSymbol j := by
  funext s
  simp only [ofSymbol, h.file?, ofNode_eq h]

namespace Usage

theorem keeps_eq (sel : Selection) : sel.keeps i = sel.keeps j := by
  funext key
  simp only [Selection.keeps, isProjectAuthored, h.file?]

theorem referenced?_eq : referenced? i = referenced? j := by
  funext g
  rw [referenced?, referenced?, Slice.ofSymbol_eq h]

theorem aggregate_eq : aggregate i = aggregate j := by
  funext sel usages
  simp only [aggregate, selected, keeps_eq h, referenced?_eq h]

end Usage

namespace Payload

theorem ofUsages_eq : ofUsages i = ofUsages j := by
  funext f n projectOnly usages
  simp only [ofUsages, originAt, h.symbolsAt, Slice.ofNode_eq h, Usage.aggregate_eq h]

/-- A payload is built of slices, of the symbols that are used and of what is kept of them. -/
theorem build_eq (σ : Type) : @build σ i = @build σ j := by
  funext f n options token s
  simp only [build, Answers.ofIndex_eq h, ofUsages_eq h]

end Payload

end Agreeing

/-- **Projects with indexes that agree** give the same payloads. -/
theorem Payload.extract_eq {p q : Project} (hstate : p.state = q.state) (h : Agree p.index q.index)
    (σ : Type) : @extract σ p = @extract σ q := by
  have hready : p.isReady = q.isReady := by rw [Project.isReady, Project.isReady, hstate]
  funext path offset options token s
  simp only [extract, hready, h.fileForPath?, build_eq h]

/-! ### Files that are put in their places -/

namespace Project

variable {given : ParsedText} {language : Language}

/-- The project with a file put in its place. -/
def withFile (p : Project) (f : SourceFile) : Project := { p with index := p.index.replaceFile f }

/-- A file that is put in its own place leaves every file at its path. -/
theorem fileForPath?_withFile {p : Project} (hp : Consistent p.index) {f : SourceFile}
    (hf : f ∈ p.index.files) : (p.withFile f).index.fileForPath? = p.index.fileForPath? := by
  have hj : Consistent (p.index.replaceFile f) := hp.replaceFile (hp.id_le hf) (hp.attached f hf)
  exact hj.fileForPath?_congr hp (hp.files_replaceFile hf)

/-- A file is put in its place once. -/
theorem withFile_withFile {p : Project} (hp : Consistent p.index) {f : SourceFile}
    (hf : f ∈ p.index.files) : (p.withFile f).withFile f = p.withFile f :=
  congrArg (fun index => { p with index := index }) (Index.replaceFile_replaceFile (hp.id_le hf))

section Found

variable {p : Project} {id : FileId} (hlanguage : Language.ofPath? given.path = some language)
  (hfound : p.index.fileForPath? given.path = some (sourceFile p.root p.config id language given))
include hlanguage hfound

/-- A file that is read anew with the text it had is put in its own place. -/
theorem update_of_found :
    p.update given = .ok (p.withFile (sourceFile p.root p.config id language given)) := by
  unfold update updateIndex
  rw [hlanguage, hfound]
  rfl

/-- It stays there when it is read once more. -/
theorem update_withFile_of_found (hp : Consistent p.index) :
    (p.withFile (sourceFile p.root p.config id language given)).update given =
      .ok (p.withFile (sourceFile p.root p.config id language given)) := by
  -- the file is found at its path again, and putting it in its place a second time changes nothing
  have hmem := Index.mem_of_fileForPath? hfound
  have hagain := (congrFun (fileForPath?_withFile hp hmem) given.path).trans hfound
  have hupdate := update_of_found hlanguage hagain
  exact hupdate.trans (congrArg Except.ok (withFile_withFile hp hmem))

end Found

end Project

/-! ### Reading a file anew -/

/-- A file that is put in its place changes no payload if it changes no answer. -/
theorem Payload.extract_withFile {p : Project} {f : SourceFile}
    (h : Agree p.index (p.index.replaceFile f)) (σ : Type) :
    @extract σ (p.withFile f) = @extract σ p :=
  (extract_eq (p := p) (q := p.withFile f) rfl h σ).symm

/-- **Reading a file of a project anew with the text it had** succeeds, changes nothing but the
order of the symbols, and a second time nothing at all.  No payload is different afterwards, for any
path, caret, settings and flag, if the file is the last one to declare the qualified names in it. -/
theorem Payload.extract_update {root : Path} {config : Config} {files : List ParsedText}
    {given : ParsedText} (hpaths : files.Pairwise fun a b => ¬ a.path.Same b.path)
    (hgiven : given ∈ files) (hlanguage : (Language.ofPath? given.path).isSome = true) :
    ∃ f p, (Project.ofSources root config files).index.fileForPath? given.path = some f ∧
      f.text = given.text ∧
      (Project.ofSources root config files).update given = .ok p ∧ p.update given = .ok p ∧
      p.index.files = (Project.ofSources root config files).index.files ∧
      p.index.symbols.Perm (Project.ofSources root config files).index.symbols ∧
      (LastOfItsNames (Project.ofSources root config files).index f →
        ∀ (σ : Type) (path : Path) (offset : Nat) (options : ExtractOptions) (token : Token σ),
          extract p path offset options token =
            extract (Project.ofSources root config files) path offset options token) := by
  obtain ⟨language, hlanguage⟩ := Option.isSome_iff_exists.1 hlanguage
  obtain ⟨id, hmem⟩ := Project.exists_mem_indexOf root config hgiven hlanguage
  have hi := Index.consistent_indexOf root config files
  have hfound := Project.fileForPath?_indexOf hpaths hmem
  have honce := Project.update_of_found (p := .ofSources root config files) hlanguage hfound
  have htwice := Project.update_withFile_of_found (p := .ofSources root config files) hlanguage
    hfound hi
  refine ⟨Project.sourceFile root config id language given,
    (Project.ofSources root config files).withFile
      (Project.sourceFile root config id language given), hfound, rfl, honce, htwice,
    hi.files_replaceFile hmem, Index.perm_replaceFile hi hmem, ?_⟩
  intro hnames σ path offset options token
  have hagree := Agree.replaceFile hi hmem hnames
  rw [extract_withFile (p := Project.ofSources root config files) hagree]

/-! ### Overloads in several files -/

namespace Overloads

/-- A file that declares `fun g(x: T)` in a package with a name of one letter, with the text and
the tree of the function's body. -/
def given (path package type body : String) (tree : List Tree) : ParsedText :=
  let stop := 20 + type.length
  ⟨⟨path⟩, "package " ++ package ++ "\nfun g(x: " ++ type ++ ")" ++ body ++ "\n",
    .named "source_file" 0 (stop + body.length + 1)
      [.named "package_header" 0 9
        [.token "package" 0 7, .named "identifier" 8 9 [.named "simple_identifier" 8 9 []]],
       .named "function_declaration" 10 (stop + body.length)
        ([.token "fun" 10 13, .named "simple_identifier" 14 15 [],
          .named "function_value_parameters" 15 stop
           [.token "(" 15 16,
            .named "parameter" 16 (stop - 1)
             [.named "simple_identifier" 16 17 [], .token ":" 17 18,
              .named "user_type" 19 (stop - 1) [.named "type_identifier" 19 (stop - 1) []]],
            .token ")" (stop - 1) stop]] ++ tree)]⟩

/-- The tree of ` = 1`, from its first byte. -/
def body (start : Nat) : List Tree :=
  [.named "function_body" (start + 1) (start + 4)
    [.token "=" (start + 1) (start + 2), .named "integer_literal" (start + 3) (start + 4) []]]

/-- `fun g(x: Int) = 1` -/
def ofInt : ParsedText := given "/p/a.kt" "p" "Int" " = 1" (body 23)

/-- `fun g(x: String) = 2` -/
def ofString (package : String) : ParsedText :=
  given "/p/b.kt" package "String" " = 2" (body 26)

/-- What is read below `lib` has no code. -/
def config : Config := { libraryRoots := [⟨"lib"⟩] }

/-- The project of the files. -/
def project (files : List ParsedText) : Project := .ofSources ⟨"/p"⟩ config files

/-- The overloads stand in different packages. -/
def apart : List ParsedText := [ofInt, ofString "q"]

/-- Each of the files is the last to declare its names. -/
theorem lastOfItsNames_apart :
    ∀ f ∈ (project apart).index.files, LastOfItsNames (project apart).index f := by
  decide

end Overloads

open Overloads in
/-- A file that is read anew shows the same payloads. -/
theorem Payload.extract_update_apart :
    apart.Pairwise (fun a b => ¬ a.path.Same b.path) ∧
    ∃ p, (project apart).update ofInt = .ok p ∧
      ∀ (offset : Nat) (options : ExtractOptions) (cancelled : Bool),
        extract p ofInt.path offset options (.fixed cancelled) =
          extract (project apart) ofInt.path offset options (.fixed cancelled) := by
  have hpaths : apart.Pairwise fun a b => ¬ a.path.Same b.path := by decide
  obtain ⟨f, p, hf, -, hp, -, -, -, hsame⟩ :=
    Payload.extract_update hpaths List.mem_cons_self (by decide)
  refine ⟨hpaths, p, hp, fun offset options cancelled => ?_⟩
  exact hsame (lastOfItsNames_apart f (Index.mem_of_fileForPath? hf)) Unit _ offset options _

namespace Overloads

/-- `fun g(x: Int)`, without its code. -/
def compiled : ParsedText := given "/p/lib/g.kt" "p" "Int" "" []

/-- The overloads stand in one package. -/
def together : List ParsedText := [ofInt, ofString "p", compiled]

def intFile : SourceFile := Project.sourceFile ⟨"/p"⟩ config 0 .kotlin ofInt

def compiledFile : SourceFile := Project.sourceFile ⟨"/p"⟩ config 2 .kotlin compiled

/-- The declaration in the compiled file. -/
def node : Node := (compiledFile.declarationAt? 14).get (by decide)

theorem differentPaths : together.Pairwise fun a b => ¬ a.path.Same b.path := by decide

/-- The compiled function is shown from the file that it is found in. -/
theorem filePath_ofNode (i : Index) (origin : Origin) {path : Path}
    (h : ((Slice.sourceOf? i compiledFile node).map fun source => source.1.path) = some path) :
    (Slice.ofNode i compiledFile node origin).filePath = path := by
  obtain ⟨source, hsource, rfl⟩ := Option.map_eq_some_iff.1 h
  have hcompiled : compiledFile.compiled = true := by decide
  rw [Slice.ofNode, if_pos hcompiled, hsource]
  rfl

/-- The source of the compiled function is the first of the two written ones. -/
theorem sourceOf?_before :
    ((Slice.sourceOf? (project together).index compiledFile node).map fun source => source.1.path) =
      some ⟨"/p/a.kt"⟩ := by
  simp only [project, Project.ofSources, Project.indexOf, Index.ofFiles, Slice.sourceOf?,
    Index.sourceEquivalent?, Index.symbolsAt_ofParts, Index.findByQualifiedName_ofParts]
  decide

/-- After the first has been read anew, it is the other. -/
theorem sourceOf?_after :
    ((Slice.sourceOf? ((project together).withFile intFile).index compiledFile node).map
      fun source => source.1.path) = some ⟨"/p/b.kt"⟩ := by
  simp only [Project.withFile, Index.replaceFile, Slice.sourceOf?,
    Index.sourceEquivalent?, Index.symbolsAt_ofParts, Index.findByQualifiedName_ofParts]
  decide

end Overloads

namespace Payload

/-- A run that may not keep any usage shows the declaration alone. -/
theorem extract_of_full {p : Project} {path : Path} {offset b : Nat} {f : SourceFile} {n : Node}
    (hlanguage : Language.ofPath? path = some .kotlin) (hready : p.isReady = true)
    (hf : p.index.fileForPath? path = some f) (hb : Text.byteOffset? f.text offset = some b)
    (hn : f.declarationAt? b = some n) :
    (extract p path offset { maxUsages := 0 } (.fixed false) ()).1 =
      .ok (ofUsages p.index f n false []) := by
  have hcollect : ∀ session : Session Unit,
      Usage.collect session ⟨0, false⟩ ⟨fun _ => false, 64⟩ n () = (.ok [], ()) := by
    intro session
    unfold Usage.collect
    cases Usage.itinerary n <;> rfl
  simp only [extract, hlanguage, hready, hf, hb, hn, build]
  simp [Token.fixed, hcollect]

end Payload

open Overloads in
/-- Of two overloads in one package that fit a compiled function, the one that it is shown from
changes when the file of the first is read anew with the text it had. -/
theorem Payload.extract_changed_together :
    together.Pairwise (fun a b => ¬ a.path.Same b.path) ∧ ofInt ∈ together ∧
    ∃ p old new, (project together).update ofInt = .ok p ∧
      (extract (project together) compiled.path 14 { maxUsages := 0 } (.fixed false) ()).1 =
        .ok old ∧
      (extract p compiled.path 14 { maxUsages := 0 } (.fixed false) ()).1 = .ok new ∧
      old.target.map (·.slice.filePath) = some ⟨"/p/a.kt"⟩ ∧
      new.target.map (·.slice.filePath) = some ⟨"/p/b.kt"⟩ := by
  have hi := Index.consistent_indexOf ⟨"/p"⟩ config together
  have hint : intFile ∈ (project together).index.files := List.mem_of_getElem? (i := 0) rfl
  have hcompiled : compiledFile ∈ (project together).index.files :=
    List.mem_of_getElem? (i := 2) rfl
  have hfound := Project.fileForPath?_indexOf differentPaths hcompiled
  have hagain := (congrFun (Project.fileForPath?_withFile (p := project together) hi hint)
    compiled.path).trans hfound
  have hupdate := Project.update_of_found (p := project together) (by decide)
    (Project.fileForPath?_indexOf differentPaths hint)
  have hbyte : Text.byteOffset? compiledFile.text 14 = some 14 := by decide
  have hnode : compiledFile.declarationAt? 14 = some node := (Option.some_get _).symm
  have hkotlin : Language.ofPath? compiled.path = some .kotlin := by decide
  refine ⟨differentPaths, List.mem_cons_self, _, _, _, hupdate,
    extract_of_full hkotlin rfl hfound hbyte hnode,
    extract_of_full hkotlin rfl hagain hbyte hnode, ?_, ?_⟩
  · exact congrArg some (filePath_ofNode _ _ sourceOf?_before)
  · exact congrArg some (filePath_ofNode _ _ sourceOf?_after)

end Crossref
