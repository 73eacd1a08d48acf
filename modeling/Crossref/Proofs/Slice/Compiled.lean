import Crossref.Proofs.Slice.Fidelity

/-!
# Proofs — slices — compiled declarations

A declaration without its code is to be shown from the source that is known for it.  The slice does
not start from the symbol it is asked for: it takes the first symbol that the declaration introduces
and looks for the source of that one.  A class shares its declaration with its constructor and with
the members that the compiler adds, and these come first.  So the class is shown from its source
where the constructor has a source in the same place, and not where the constructor has another
number of parameters there.  What has its declaration for itself is always shown from its source.

* `Consistent.of_sourceEquivalent?`: the source of a symbol stands in a file with code.
* `ofSymbol_takenFrom_source`: a compiled declaration is shown from its source exactly when its
  first symbol leads there.
-/

namespace Crossref

/-- The source of a symbol is indexed, and stands in a file with code. -/
theorem Index.Consistent.of_sourceEquivalent? {i : Index} (hi : i.Consistent) {s t : Symbol}
    (h : i.sourceEquivalent? s = some t) {f : SourceFile}
    (hf : i.file? t.declaration.file = some f) : t ∈ i.symbols ∧ f.compiled = false := by
  obtain ⟨name, -, h⟩ := Option.bind_eq_some_iff.1 h
  have ht := hi.mem_of_findByQualifiedName (List.mem_of_find?_eq_some h)
  obtain ⟨hff, htf, -⟩ := hi.place_of_file? ht hf
  obtain ⟨-, -, -, hfile⟩ := SourceFile.exists_place htf
  have hmatch := List.find?_some h
  rw [hfile, hi.file?_id hff] at hmatch
  exact ⟨ht, by simpa using (Bool.and_eq_true_iff.1 hmatch).2⟩

namespace Slice
open Node

/-- The slice is taken from the declaration with the key in the file: it names the file, and shows
the declaration's text and its place. -/
structure TakenFrom (f : SourceFile) (k : DeclKey) (slice : Slice) : Prop where
  filePath : slice.filePath = f.path
  shows : Shows f k slice

/-- A slice of a file shows one declaration only. -/
theorem Shows.key_unique {f : SourceFile} {k l : DeclKey} {slice : Slice} (hk : Shows f k slice)
    (hl : Shows f l slice) (hfile : k.file = l.file) : k = l := by
  obtain ⟨a, ha, hastart, -⟩ := hk.offset
  obtain ⟨b, hb, hbstart, -⟩ := hl.offset
  obtain rfl : a = b := Int.ofNat.inj (ha.symm.trans hb)
  have hstart : k.start = l.start := hastart.symm.trans hbstart
  -- both end where the text does
  have stop {k : DeclKey} (h : Shows f k slice) :
      k.stop = k.start + Text.byteSize slice.sourceText.toList := by
    obtain ⟨before, after, hbegin, hend⟩ := Text.slice?_eq_some_iff.1 h.sourceText
    rw [← hend.bytes, Text.byteSize_append, hbegin.bytes]
  have hstop : k.stop = l.stop := by rw [stop hk, stop hl, hstart]
  cases k
  cases l
  simp_all

/-- The declaration of a symbol leads to that of `t`: its node is found, and the first symbol that
it introduces has a source with the declaration of `t`. -/
def LeadsTo (i : Index) (f : SourceFile) (s t : Symbol) : Prop :=
  (f.nodeFor? s.declaration).isSome = true ∧
    ∃ first u, (i.symbolsAt s.declaration).head? = some first ∧
      i.sourceEquivalent? first = some u ∧ u.declaration = t.declaration

/-- The slice of a compiled declaration is that of the source that its first symbol leads to, or
else one of the declaration itself. -/
theorem ofNode_compiled_cases {i : Index} {f : SourceFile} {s : Symbol} {n : Node} {origin : Origin}
    (hc : f.compiled = true) (hn : f.nodeFor? s.declaration = some n) :
    (∃ first u g m, (i.symbolsAt s.declaration).head? = some first ∧
      i.sourceEquivalent? first = some u ∧ i.file? u.declaration.file = some g ∧
      g.keyOf m = u.declaration ∧ ofNode i f n origin = snapshot g m origin) ∨
    ofNode i f n origin = snapshot f n origin := by
  have hkey := SourceFile.keyOf_of_nodeFor? hn
  rw [ofNode, if_pos hc]
  cases hsource : sourceOf? i f n with
  | none => exact .inr rfl
  | some source =>
      obtain ⟨first, hfirst, h⟩ := Option.bind_eq_some_iff.1 hsource
      obtain ⟨u, hu, h⟩ := Option.bind_eq_some_iff.1 h
      obtain ⟨g, hg, h⟩ := Option.bind_eq_some_iff.1 h
      obtain ⟨m, hm, h⟩ := Option.bind_eq_some_iff.1 h
      cases h
      exact .inl ⟨first, u, g, m, hkey ▸ hfirst, hu, hg, SourceFile.keyOf_of_nodeFor? hm, rfl⟩

section Compiled

variable {i : Index} (hi : i.Consistent) (hw : ∀ f ∈ i.files, f.tree.WellFormed ∧ f.OnBoundaries)
  {s t : Symbol} {f g : SourceFile} (hf : i.file? s.declaration.file = some f)
  (hc : f.compiled = true) (ht : i.sourceEquivalent? s = some t)
  (hg : i.file? t.declaration.file = some g)
include hi hw hf hc ht hg

/-- Where the declaration leads to that of `t`, the slice is taken from there. -/
theorem LeadsTo.takenFrom (h : LeadsTo i f s t) (hsolid : g.SolidAt t.declaration) :
    ∃ slice, ofSymbol i s = .ok slice ∧ TakenFrom g t.declaration slice ∧
      slice.origin = s.origin := by
  obtain ⟨hfound, first, u, hfirst, hu, hut⟩ := h
  obtain ⟨n, hn⟩ := Option.isSome_iff_exists.1 hfound
  obtain ⟨htmem, -⟩ := hi.of_sourceEquivalent? ht hg
  obtain ⟨hgf, -, k, hk, hkey⟩ := hi.place_of_file? htmem hg
  obtain ⟨htree, hb⟩ := hw g hgf
  obtain ⟨m, hm⟩ := (hsolid k hk hkey.symm).exists_nodeFor? (hb.wellFormed htree)
  have hsource : sourceOf? i f n = some (g, m) := by
    simp [sourceOf?, SourceFile.keyOf_of_nodeFor? hn, hfirst, hu, hut, hg, hm]
  have hslice : ofSymbol i s = .ok (snapshot g m s.origin) := by
    simp [ofSymbol, hf, hn, ofNode, hc, hsource]
  have hmkey := SourceFile.keyOf_of_nodeFor? hm
  exact ⟨_, hslice, ⟨rfl, shows_snapshot_of_mem hi hw htmem hg hmkey⟩, rfl⟩

/-- Where files have different paths, a slice that is taken from the declaration of `t` was led
there. -/
theorem TakenFrom.leadsTo (hpaths : ∀ a ∈ i.files, ∀ b ∈ i.files, a.path = b.path → a = b)
    {slice : Slice} (hslice : ofSymbol i s = .ok slice) (h : TakenFrom g t.declaration slice) :
    LeadsTo i f s t := by
  obtain ⟨htmem, hgc⟩ := hi.of_sourceEquivalent? ht hg
  obtain ⟨hgf, -, k, -, hkey⟩ := hi.place_of_file? htmem hg
  simp only [ofSymbol, hf] at hslice
  cases hn : f.nodeFor? s.declaration with
  | none => simp [hn] at hslice
  | some n =>
      simp only [hn] at hslice
      obtain rfl := Except.ok.inj hslice
      refine ⟨by simp [hn], ?_⟩
      rcases ofNode_compiled_cases hc hn with ⟨first, u, a, m, hfirst, hu, ha, hm, hnode⟩ | hnode
      · rw [hnode] at h
        obtain rfl := hpaths a (List.mem_of_getElem? ha) g hgf h.filePath
        obtain ⟨humem, -⟩ := hi.of_sourceEquivalent? hu ha
        obtain ⟨-, -, l, -, hl⟩ := hi.place_of_file? humem ha
        have hfile : u.declaration.file = t.declaration.file := by rw [hl, hkey]; rfl
        have hshows : Shows a u.declaration (snapshot a m s.origin) :=
          shows_snapshot_of_mem hi hw humem ha hm
        exact ⟨first, u, hfirst, hu, hshows.key_unique h.shows hfile⟩
      · -- the compiled file is not the file of the source
        rw [hnode] at h
        obtain rfl := hpaths f (List.mem_of_getElem? hf) g hgf h.filePath
        exact absurd (hc.symm.trans hgc) (by decide)

end Compiled

/-- A declaration that is not empty and introduces only one symbol leads to the source of it. -/
theorem leadsTo_of_alone {i : Index} (hi : i.Consistent) {s t : Symbol} (hs : s ∈ i.symbols)
    {f : SourceFile} (hf : i.file? s.declaration.file = some f) (hw : f.WellFormed)
    (ht : i.sourceEquivalent? s = some t) (hsolid : f.SolidAt s.declaration)
    (halone : ∀ r ∈ i.symbols, r.declaration = s.declaration → r = s) : LeadsTo i f s t := by
  obtain ⟨-, -, n, hn, hd⟩ := hi.place_of_file? hs hf
  obtain ⟨m, hm⟩ := (hsolid n hn hd.symm).exists_nodeFor? hw
  have hat : ∀ r, r ∈ i.symbolsAt s.declaration ↔
      r ∈ i.symbols ∧ r.declaration = s.declaration := by
    rw [hi.tables, Index.symbolsAt_ofParts]
    simp [Index.ofParts]
  obtain ⟨first, rest, hcons⟩ := List.exists_cons_of_ne_nil
    (List.ne_nil_of_mem ((hat s).2 ⟨hs, rfl⟩))
  obtain ⟨hfirst, hfd⟩ := (hat first).1 (by simp [hcons])
  obtain rfl := halone first hfirst hfd
  exact ⟨by simp [hm], first, t, by simp [hcons], ht, rfl⟩

/-- **A compiled declaration is shown from its source** when the first symbol that it introduces
leads there, as it does where it is the only one; and, in an index whose files have different paths,
only then. -/
theorem ofSymbol_takenFrom_source {i : Index} (hi : i.Reachable)
    (hw : ∀ f ∈ i.files, f.tree.WellFormed ∧ f.OnBoundaries) {s t : Symbol} {f g : SourceFile}
    (hf : i.file? s.declaration.file = some f) (hc : f.compiled = true)
    (ht : i.sourceEquivalent? s = some t) (hg : i.file? t.declaration.file = some g)
    (hsolid : g.SolidAt t.declaration) :
    g.compiled = false ∧
    (LeadsTo i f s t → ∃ slice, ofSymbol i s = .ok slice ∧ TakenFrom g t.declaration slice ∧
      slice.origin = s.origin) ∧
    (s ∈ i.symbols → f.SolidAt s.declaration →
      (∀ r ∈ i.symbols, r.declaration = s.declaration → r = s) → LeadsTo i f s t) ∧
    ((∀ a ∈ i.files, ∀ b ∈ i.files, a.path = b.path → a = b) →
      (∃ slice, ofSymbol i s = .ok slice ∧ TakenFrom g t.declaration slice) → LeadsTo i f s t) := by
  have hi := hi.consistent
  refine ⟨(hi.of_sourceEquivalent? ht hg).2, fun h => h.takenFrom hi hw hf hc ht hg hsolid, ?_, ?_⟩
  · intro hs hsolid' halone
    obtain ⟨htree, hb⟩ := hw f (List.mem_of_getElem? hf)
    exact leadsTo_of_alone hi hs hf (hb.wellFormed htree) ht hsolid' halone
  · rintro hpaths ⟨slice, hslice, htaken⟩
    exact htaken.leadsTo hi hw hf hc ht hg hpaths hslice

end Slice

/-! ### A class with and without its code -/

namespace StubOfClass

/-- A file with `package p` and `class A`, whose head goes on with the parameters. -/
def given (path parameters : String) (head : List Tree) : ParsedText where
  path := ⟨path⟩
  text := "package p\nclass A" ++ parameters ++ "\n"
  tree :=
    .named "source_file" 0 (18 + parameters.length)
      [.named "package_header" 0 9
        [.token "package" 0 7, .named "identifier" 8 9 [.named "simple_identifier" 8 9 []]],
       .named "class_declaration" 10 (17 + parameters.length)
        ([.token "class" 10 15, .named "type_identifier" 16 17 []] ++ head)]

/-- The class without its code. -/
def stub : ParsedText := given "/p/libs/A.kt" "" []

/-- The class with the same head. -/
def alike : ParsedText := given "/p/a.kt" "" []

/-- The class with a parameter, which its constructor has too. -/
def withParameter : ParsedText :=
  given "/p/a.kt" "(val x: Int)"
    [.named "primary_constructor" 17 29
      [.token "(" 17 18,
       .named "class_parameter" 18 28
        [.named "binding_pattern_kind" 18 21 [.token "val" 18 21],
         .named "simple_identifier" 22 23 [], .token ":" 23 24,
         .named "user_type" 25 28 [.named "type_identifier" 25 28 []]],
       .token ")" 28 29]]

/-- What is read below `libs` has no code. -/
def config : Config := { libraryRoots := [⟨"libs"⟩] }

def stubFile : SourceFile := Project.sourceFile ⟨"/p"⟩ config 0 .kotlin stub

def fileOf (source : ParsedText) : SourceFile := Project.sourceFile ⟨"/p"⟩ config 1 .kotlin source

/-- The project of the class without its code and of a source. -/
def index (source : ParsedText) : Index := Project.indexOf ⟨"/p"⟩ config [stub, source]

/-- The class of a file; its constructor comes before it. -/
def classIn (f : SourceFile) : Symbol := f.symbols.getLastD default

/-- The first symbol of a file, here the constructor. -/
def constructorIn (f : SourceFile) : Symbol := f.symbols.headD default

/-- The sources that are given in place of the stub. -/
def sources : List ParsedText := [alike, withParameter]

theorem placed : (classIn stubFile).declaration.file = 0 ∧
    ∀ source ∈ sources, (classIn (fileOf source)).declaration.file = 1 ∧
      ∀ f ∈ (index source).files, f.tree.WellFormed ∧ f.OnBoundaries := by
  decide

theorem file?_stub (source : ParsedText) :
    (index source).file? (classIn stubFile).declaration.file = some stubFile := by
  rw [placed.1]
  rfl

theorem file?_source : ∀ source ∈ sources,
    (index source).file? (classIn (fileOf source)).declaration.file = some (fileOf source) := by
  intro source h
  rw [(placed.2 source h).1]
  simp only [sources, List.mem_cons, List.not_mem_nil, or_false] at h
  rcases h with rfl | rfl <;> rfl

theorem wellFormed (source : ParsedText) (h : source ∈ sources) :
    ∀ f ∈ (index source).files, f.tree.WellFormed ∧ f.OnBoundaries := (placed.2 source h).2

theorem sourceEquivalent?_class : ∀ source ∈ sources,
    (index source).sourceEquivalent? (classIn stubFile) = some (classIn (fileOf source)) := by
  simp only [index, Project.indexOf, Index.ofFiles, Index.sourceEquivalent?,
    Index.findByQualifiedName_ofParts]
  decide

/-- With the same head, the constructors stand for one another, too. -/
theorem leadsTo_alike :
    Slice.LeadsTo (index alike) stubFile (classIn stubFile) (classIn (fileOf alike)) := by
  refine ⟨by decide, constructorIn stubFile, constructorIn (fileOf alike), ?_, ?_,
    by decide⟩
  · simp only [index, Project.indexOf, Index.ofFiles, Index.symbolsAt_ofParts]
    decide
  · simp only [index, Project.indexOf, Index.ofFiles, Index.sourceEquivalent?,
      Index.findByQualifiedName_ofParts]
    decide

/-- With a parameter they do not, and the class is shown as it stands in the stub. -/
theorem shown_withParameter :
    (Slice.ofSymbol (index withParameter) (classIn stubFile)).toOption.map
      (fun slice => (slice.filePath, slice.sourceText)) = some (⟨"/p/libs/A.kt"⟩, "class A") := by
  simp only [index, Project.indexOf, Index.ofFiles, Slice.ofSymbol, Slice.ofNode, Slice.sourceOf?,
    Index.sourceEquivalent?, Index.symbolsAt_ofParts, Index.findByQualifiedName_ofParts]
  decide

end StubOfClass

open StubOfClass in
theorem Slice.ofSymbol_takenFrom_source_alike :
    ∃ slice, Slice.ofSymbol (index alike) (classIn stubFile) = .ok slice ∧
      TakenFrom (fileOf alike) (classIn (fileOf alike)).declaration slice ∧
      slice.origin = .library := by
  have hmem : alike ∈ sources := by simp [sources]
  obtain ⟨-, h, -⟩ := Slice.ofSymbol_takenFrom_source (.built _ _ _) (wellFormed alike hmem)
    (file?_stub alike) (by decide) (sourceEquivalent?_class alike hmem)
    (file?_source alike hmem) (by decide)
  obtain ⟨slice, hslice, htaken, horigin⟩ := h leadsTo_alike
  exact ⟨slice, hslice, htaken, horigin.trans (by decide)⟩

open StubOfClass in
/-- The class is shown without its code, though its source is known and has a declaration that is
not empty. -/
theorem Slice.ofSymbol_notTakenFrom_source_withParameter :
    (index withParameter).Reachable ∧
      (∀ f ∈ (index withParameter).files, f.tree.WellFormed ∧ f.OnBoundaries) ∧
      classIn stubFile ∈ (index withParameter).symbols ∧
      (index withParameter).file? (classIn stubFile).declaration.file = some stubFile ∧
      stubFile.compiled = true ∧
      (index withParameter).sourceEquivalent? (classIn stubFile) =
        some (classIn (fileOf withParameter)) ∧
      (index withParameter).file? (classIn (fileOf withParameter)).declaration.file =
        some (fileOf withParameter) ∧
      (fileOf withParameter).ShownAt (classIn (fileOf withParameter)).declaration ∧
      ∃ slice, Slice.ofSymbol (index withParameter) (classIn stubFile) = .ok slice ∧
        slice.filePath = ⟨"/p/libs/A.kt"⟩ ∧ slice.sourceText = "class A" ∧
        ¬ TakenFrom (fileOf withParameter) (classIn (fileOf withParameter)).declaration slice := by
  have hmem : withParameter ∈ sources := by simp [sources]
  refine ⟨.built _ _ _, wellFormed _ hmem, by decide, file?_stub _, by decide,
    sourceEquivalent?_class _ hmem, file?_source _ hmem, by decide, ?_⟩
  have hshown := shown_withParameter
  cases hslice : Slice.ofSymbol (index withParameter) (classIn stubFile) with
  | error e =>
      rw [hslice] at hshown
      cases hshown
  | ok slice =>
      rw [hslice] at hshown
      obtain ⟨hpath, htext⟩ := Prod.mk.inj (Option.some.inj hshown)
      refine ⟨slice, rfl, hpath, htext, fun h => ?_⟩
      exact absurd (hpath.symm.trans h.filePath) (by decide)

end Crossref
