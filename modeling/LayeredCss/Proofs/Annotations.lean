import LayeredCss.Stylesheet

/-!
# Comments that name the sources

Behind the rules of a stylesheet each file that has some may be named in a comment.  A comment ends at
the first `*/`, wherever that stands, so the comments are what they should be as long as no file has this
mark in its id.  An id that has it ends its comment early: what is left of the id stands in the open, or
makes comments of its own.

* `Css.comments?`: a text of comments and white space;
* `SheetCache.comments?_annotations`, `SheetCache.length_le_of_comments?`: what the comments of files read
  as;
* `SheetCache.refresh_annotated`: the stylesheet of a store and what stands behind its rules;
* `SheetCache.not_annotated_of_endsEarly`: a file whose id ends its comment.
-/

namespace LayeredCss

namespace Css

def isBlank (c : Char) : Bool := c = ' ' || c = '\t' || c = '\n' || c = '\r' || c = '\x0c'

/-- The bodies of the comments of a text, if nothing but white space stands outside of them.  A comment
goes on to the first end mark; `inside` is the body so far of the comment that the text begins in. -/
def comments? : (inside : Option (List Char)) → List Char → Option (List String)
  | none, [] => some []
  | some _, [] => none
  | none, '/' :: '*' :: rest => comments? (some []) rest
  | none, c :: rest => if isBlank c then comments? none rest else none
  | some body, '*' :: '/' :: rest => (comments? none rest).map (String.ofList body :: ·)
  | some body, c :: rest => comments? (some (body ++ [c])) rest

theorem comments?_outside {rest : List Char} {c : Char}
    (h : ∀ rest', c = '/' → rest ≠ '*' :: rest') :
    comments? none (c :: rest) = if isBlank c then comments? none rest else none := by
  rw [comments?]
  exact h

theorem comments?_blank {c : Char} (h : isBlank c = true) (rest : List Char) :
    comments? none (c :: rest) = comments? none rest := by
  have hc : c ≠ '/' := by rintro rfl; cases h
  rw [comments?_outside fun _ heq => absurd heq hc, if_pos h]

theorem comments?_inside {body rest : List Char} {c : Char}
    (h : ∀ rest', c = '*' → rest ≠ '/' :: rest') :
    comments? (some body) (c :: rest) = comments? (some (body ++ [c])) rest := by
  rw [comments?]
  exact h

theorem comments?_close (body rest : List Char) :
    comments? (some body) (' ' :: '*' :: '/' :: rest) =
      (comments? none rest).map (String.ofList (body ++ [' ']) :: ·) := by
  simp [comments?]

/-- A text without a star stays inside of the comment. -/
theorem comments?_plain {text : List Char} (h : '*' ∉ text) (body rest : List Char) :
    comments? (some body) (text ++ rest) = comments? (some (body ++ text)) rest := by
  induction text generalizing body with
  | nil => rw [List.append_nil, List.nil_append]
  | cons c text ih =>
    obtain ⟨hc, htext⟩ := not_or.mp (mt List.mem_cons.mpr h)
    rw [List.cons_append, comments?_inside fun _ heq => absurd heq.symm hc, ih htext,
      List.append_assoc, List.singleton_append]

/-- No mark begins in a text and ends behind the blank that follows it. -/
theorem exists_cons_of_append {d : Char} {text rest more : List Char} (hd : d ≠ ' ')
    (h : text ++ ' ' :: rest = d :: more) : ∃ text', text = d :: text' := by
  cases text with
  | nil => exact absurd (List.cons.inj h).1.symm hd
  | cons c text => exact ⟨text, by rw [(List.cons.inj h).1]⟩

/-- A text without an end mark stays inside of the comment. -/
theorem comments?_text {text : List Char} (h : ¬['*', '/'] <:+: text) (body rest : List Char) :
    comments? (some body) (text ++ ' ' :: rest) = comments? (some (body ++ text)) (' ' :: rest) := by
  induction text generalizing body with
  | nil => rw [List.append_nil, List.nil_append]
  | cons c text ih =>
    obtain ⟨hfirst, hrest⟩ := not_or.mp (mt List.infix_cons_iff.mpr h)
    have hgoes : ∀ rest', c = '*' → text ++ ' ' :: rest ≠ '/' :: rest' := by
      rintro rest' rfl heq
      obtain ⟨text', rfl⟩ := exists_cons_of_append (by decide) heq
      exact hfirst ⟨text', rfl⟩
    rw [List.cons_append, comments?_inside hgoes, ih hrest, List.append_assoc, List.singleton_append]

/-- **A text up to the end of a comment**, from outside or inside of one, holds one comment at least,
and two if it begins inside of one and has an end mark before the last. -/
theorem comments?_append (inside : Option (List Char)) (text rest : List Char) {bodies : List String}
    (h : comments? inside (text ++ ' ' :: '*' :: '/' :: rest) = some bodies) :
    ∃ first others, bodies = first ++ others ∧ comments? none rest = some others ∧
      0 < first.length ∧ (inside.isSome → ['*', '/'] <:+: text → 1 < first.length) := by
  induction inside, text using comments?.induct generalizing bodies with
  | case1 => simp [comments?, isBlank] at h
  | case2 body =>
    rw [List.nil_append, comments?_close] at h
    obtain ⟨others, hothers, rfl⟩ := Option.map_eq_some_iff.mp h
    exact ⟨[String.ofList (body ++ [' '])], others, rfl, hothers, Nat.one_pos,
      fun _ hmark => absurd (List.infix_nil.mp hmark) (List.cons_ne_nil _ _)⟩
  | case3 text ih =>
    rw [List.cons_append, List.cons_append, comments?] at h
    obtain ⟨first, others, hbodies, hothers, hfirst, -⟩ := ih h
    exact ⟨first, others, hbodies, hothers, hfirst, nofun⟩
  | case4 c text hopen hc ih =>
    rw [List.cons_append, comments?_blank hc] at h
    obtain ⟨first, others, hbodies, hothers, hfirst, -⟩ := ih h
    exact ⟨first, others, hbodies, hothers, hfirst, nofun⟩
  | case5 c text hopen hc =>
    have hstays : ∀ rest', c = '/' → text ++ ' ' :: '*' :: '/' :: rest ≠ '*' :: rest' := by
      rintro rest' rfl heq
      obtain ⟨text', rfl⟩ := exists_cons_of_append (by decide) heq
      exact hopen text' rfl rfl
    rw [List.cons_append, comments?_outside hstays, if_neg hc] at h
    cases h
  | case6 body text ih =>
    rw [List.cons_append, List.cons_append, comments?] at h
    obtain ⟨bodies, hrest, rfl⟩ := Option.map_eq_some_iff.mp h
    obtain ⟨first, others, rfl, hothers, hfirst, -⟩ := ih hrest
    exact ⟨String.ofList body :: first, others, rfl, hothers, Nat.succ_pos _,
      fun _ _ => Nat.succ_lt_succ hfirst⟩
  | case7 body c text hmark ih =>
    have hgoes : ∀ rest', c = '*' → text ++ ' ' :: '*' :: '/' :: rest ≠ '/' :: rest' := by
      rintro rest' rfl heq
      obtain ⟨text', rfl⟩ := exists_cons_of_append (by decide) heq
      exact hmark text' rfl rfl
    rw [List.cons_append, comments?_inside hgoes] at h
    obtain ⟨first, others, hbodies, hothers, hfirst, hmore⟩ := ih h
    refine ⟨first, others, hbodies, hothers, hfirst, fun _ hinfix => hmore rfl ?_⟩
    rcases List.infix_cons_iff.mp hinfix with ⟨more, hprefix⟩ | hinfix
    · cases hprefix
      exact absurd rfl (hmark more rfl)
    · exact hinfix

end Css

namespace SheetCache

open Css (comments?)

/-- The id of a file has an end mark, which ends the comment of the file. -/
def EndsEarly (file : FileId) : Prop := ['*', '/'] <:+: file.name.toList

instance (file : FileId) : Decidable (EndsEarly file) :=
  inferInstanceAs (Decidable (['*', '/'] <:+: file.name.toList))

/-- What stands in the comment of a file. -/
def commentOf (file : FileId) : String := s!" sourceMappingURL={file} "

/-- The comment of a file is read up to the id. -/
theorem comments?_join_cons (file : FileId) (files : List FileId) :
    comments? none (String.join ((file :: files).map annotation)).toList =
      comments? (some " sourceMappingURL=".toList)
        (file.name.toList ++ ' ' :: '*' :: '/' :: (String.join (files.map annotation)).toList) := by
  have htext : annotation file = "\n/* sourceMappingURL=" ++ file.name ++ " */" := rfl
  have hopen : "\n/* sourceMappingURL=".toList =
      '\n' :: '/' :: '*' :: " sourceMappingURL=".toList := rfl
  have hclose : " */".toList = [' ', '*', '/'] := rfl
  have hplain : '*' ∉ " sourceMappingURL=".toList := by decide
  rw [List.map_cons, String.join_cons, htext]
  simp only [String.toList_append, List.append_assoc, hopen, hclose, List.cons_append,
    List.nil_append]
  rw [Css.comments?_blank rfl, comments?, Css.comments?_plain hplain, List.nil_append]

/-- **Files that do not end their comments early have one comment each**, in their order. -/
theorem comments?_join {files : List FileId} (h : ∀ file ∈ files, ¬EndsEarly file) :
    comments? none (String.join (files.map annotation)).toList = some (files.map commentOf) := by
  induction files with
  | nil => rfl
  | cons file files ih =>
    obtain ⟨hfile, hfiles⟩ := List.forall_mem_cons.mp h
    have hbody : String.ofList (" sourceMappingURL=".toList ++ file.name.toList ++ [' ']) =
        commentOf file := by
      rw [String.ofList_append, String.ofList_append, String.ofList_toList, String.ofList_toList]
      rfl
    rw [comments?_join_cons, Css.comments?_text hfile, Css.comments?_close, ih hfiles, hbody,
      Option.map_some, List.map_cons]

/-- **A file that ends its comment early makes more comments than there are files**, where it leaves
nothing in the open. -/
theorem length_le_of_comments? {files : List FileId} {bodies : List String}
    (h : comments? none (String.join (files.map annotation)).toList = some bodies) :
    files.length ≤ bodies.length ∧
      ((∃ file ∈ files, EndsEarly file) → files.length < bodies.length) := by
  induction files generalizing bodies with
  | nil => exact ⟨Nat.zero_le _, fun ⟨_, hmem, _⟩ => absurd hmem List.not_mem_nil⟩
  | cons file files ih =>
    rw [comments?_join_cons] at h
    obtain ⟨first, others, rfl, hothers, hfirst, hmore⟩ := Css.comments?_append _ _ _ h
    obtain ⟨hle, hlt⟩ := ih hothers
    rw [List.length_append, List.length_cons]
    refine ⟨by omega, ?_⟩
    rintro ⟨bad, hmem, hbad⟩
    rcases List.mem_cons.mp hmem with rfl | hmem
    · have := hmore rfl hbad
      omega
    · have := hlt ⟨bad, hmem, hbad⟩
      omega

/-! ## The stylesheet of a store -/

theorem comments?_annotations {files : List FileId} (hfiles : files ≠ []) :
    comments? none (annotations files).toList =
      comments? none (String.join (files.map annotation)).toList := by
  have hsome : ¬files.isEmpty = true := mt List.isEmpty_iff.mp hfiles
  rw [annotations, if_neg hsome, String.toList_append]
  exact Css.comments?_blank rfl _

/-- What a cache without a current stylesheet makes of a store by joining its rules. -/
theorem refresh_joinedRules {s : RuleStore} (hrules : s.allRules ≠ []) {a : SheetCache}
    (ha : a.isStale s = true) :
    (a.refresh joinedRules s).value.1 = .ok
      (if a.annotate then "\n\n".intercalate s.allRules ++ annotations s.contributors
        else "\n\n".intercalate s.allRules) := by
  have hcurrent : a.current? s = none := Option.isNone_iff_eq_none.mp ha
  have hsome : ¬s.allRules.isEmpty = true := mt List.isEmpty_iff.mp hrules
  have hbuild : build a.annotate joinedRules s = .ok
      (if a.annotate then "\n\n".intercalate s.allRules ++ annotations s.contributors
        else "\n\n".intercalate s.allRules) := by
    rw [build, if_neg hsome]
    rfl
  rw [value_refresh_of_made hcurrent hbuild]

/-- **What stands behind the rules.**  The annotated stylesheet of a store with rules is the stylesheet
without annotations and a text behind it.  As long as no file that has rules ends its comment early, this
text is white space and one comment for each of these files, in the order of the store, and nothing else.
If one of them does, then the text has something outside of comments, or more comments than there are
files. -/
theorem refresh_annotated {s : RuleStore} (hrules : s.allRules ≠ []) :
    ∃ css tail : String,
      (∀ a : SheetCache, a.isStale s = true → (a.refresh joinedRules s).value.1 =
        .ok (if a.annotate then css ++ tail else css)) ∧
      s.contributors ≠ [] ∧
      ((∀ file ∈ s.contributors, ¬EndsEarly file) →
        comments? none tail.toList = some (s.contributors.map commentOf)) ∧
      ((∃ file ∈ s.contributors, EndsEarly file) → ∀ bodies,
        comments? none tail.toList = some bodies → s.contributors.length < bodies.length) := by
  have hfiles : s.contributors ≠ [] := by
    have hsome : ¬s.allRules.isEmpty = true := mt List.isEmpty_iff.mp hrules
    exact List.isEmpty_eq_false_iff.mp (RuleStore.contributors_of_allRules hsome)
  refine ⟨_, annotations s.contributors, fun a ha => refresh_joinedRules hrules ha, hfiles, ?_, ?_⟩
  · intro hclean
    rw [comments?_annotations hfiles, comments?_join hclean]
  · intro hbad bodies hbodies
    rw [comments?_annotations hfiles] at hbodies
    exact (length_le_of_comments? hbodies).2 hbad

/-- Ids with stars and strokes, but without an end mark. -/
theorem refresh_annotated_globs :
    let s := (RuleStore.empty.put ⟨"src/**.ts"⟩ [".a\x7b\x7d"]).put ⟨"/b.ts?*"⟩ [".b\x7b\x7d"]
    s.allRules ≠ [] ∧ ∃ css tail : String,
      ((new false).refresh joinedRules s).value.1 = .ok css ∧
      ((new true).refresh joinedRules s).value.1 = .ok (css ++ tail) ∧
      comments? none tail.toList =
        some [" sourceMappingURL=src/**.ts ", " sourceMappingURL=/b.ts?* "] := by
  intro s
  have hrules : s.allRules ≠ [] := by decide +kernel
  have hclean : ∀ file ∈ s.contributors, ¬EndsEarly file := by decide +kernel
  have hcomments : s.contributors.map commentOf =
      [" sourceMappingURL=src/**.ts ", " sourceMappingURL=/b.ts?* "] := by decide +kernel
  obtain ⟨css, tail, hanswer, -, hread, -⟩ := refresh_annotated hrules
  exact ⟨hrules, css, tail, hanswer (new false) rfl, hanswer (new true) rfl,
    hcomments ▸ hread hclean⟩

/-- **A file whose id ends its comment**: what follows its rules is not one comment. -/
theorem not_annotated_of_endsEarly :
    ¬ ∀ s : RuleStore, s.allRules ≠ [] → ∃ css tail : String,
      ((new false).refresh joinedRules s).value.1 = .ok css ∧
      ((new true).refresh joinedRules s).value.1 = .ok (css ++ tail) ∧
      ∃ bodies, comments? none tail.toList = some bodies ∧
        bodies.length = s.contributors.length := by
  intro hall
  let s := RuleStore.empty.put ⟨"src/*/a.ts"⟩ ["._a\x7bcolor:red\x7d"]
  have hrules : s.allRules ≠ [] := by decide +kernel
  have hbad : ∃ file ∈ s.contributors, EndsEarly file := by decide +kernel
  have hfiles : s.contributors ≠ [] := by decide +kernel
  obtain ⟨css, tail, hplain, hannotated, bodies, hbodies, hlength⟩ := hall s hrules
  have hcss : css = "\n\n".intercalate s.allRules :=
    (Except.ok.inj ((refresh_joinedRules hrules rfl).symm.trans hplain)).symm
  have htail : tail = annotations s.contributors := by
    have htext := Except.ok.inj ((refresh_joinedRules hrules rfl).symm.trans hannotated)
    rw [hcss] at htext
    exact (String.append_right_inj _).mp htext.symm
  rw [htail, comments?_annotations hfiles] at hbodies
  have hmore := (length_le_of_comments? hbodies).2 hbad
  omega

end SheetCache

end LayeredCss
