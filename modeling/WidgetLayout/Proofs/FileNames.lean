/-
File names in the texts of paths.

A path to a file is a name behind a front: nothing, or a text that ends with a slash.  Cut at that
place, the text of a path says all that is needed: the name and its extension come from the one
part, and the names that lead to the directory from the other.  Joining and changing the extension
keep the front and give another name, but for one case, in which what is left of the name is no file
name any more.
-/
import WidgetLayout.Proofs.WritablePaths

namespace WidgetLayout

namespace Path

/-- What can stand before a name in a path. -/
def Front (cs : List Char) : Prop := cs = [] ∨ ∃ before, cs = before ++ ['/']

/-- A text that can be the last component of a path. -/
structure Component (name : List Char) : Prop where
  ne_nil : name ≠ []
  slash : '/' ∉ name
  ne_dot : name ≠ ['.']

/-! ### The last component

Read backwards, a path has idle slashes and dots first, and then its last component up to the
slash before it. -/

/-- Read backwards, a text without a character is passed over on the way to that character. -/
theorem ne_of_mem_reverse {c : Char} {cs : List Char} (h : c ∉ cs) :
    ∀ d ∈ cs.reverse, decide (d ≠ c) = true := by
  intro d hd
  refine decide_eq_true ?_
  rintro rfl
  exact h (List.mem_reverse.mp hd)

theorem dropIdle_component {name rest : List Char} (h : Component name) :
    dropIdle (name.reverse ++ rest) = name.reverse ++ rest := by
  have hslash : '/' ∉ name.reverse := by simpa using h.slash
  obtain ⟨c, cs, hcs⟩ := List.exists_cons_of_ne_nil (by simpa using h.ne_nil : name.reverse ≠ [])
  rw [hcs] at hslash ⊢
  rw [List.mem_cons, not_or] at hslash
  unfold dropIdle
  split
  · rename_i heq
    exact absurd (List.cons.inj heq).1.symm hslash.1
  · rename_i rest' heq
    obtain ⟨rfl, htail⟩ := List.cons.inj heq
    cases cs with
    | nil =>
        have hdot : name = ['.'] := by simpa using congrArg List.reverse hcs
        exact absurd hdot h.ne_dot
    | cons d ds =>
        have hd : d = '/' := (List.cons.inj htail).1
        exact absurd (by simp [hd]) hslash.2
  · rfl

/-- A path with a last component is cut behind its front. -/
theorem base_beforeBase_append {front name : List Char} (hfront : Front front)
    (hname : Component name) :
    base (front ++ name) = name ∧ beforeBase (front ++ name) = front := by
  have hslash := ne_of_mem_reverse hname.slash
  rw [base, beforeBase, List.reverse_append, dropIdle_component hname,
    List.takeWhile_append_of_pos hslash, List.dropWhile_append_of_pos hslash]
  rcases hfront with rfl | ⟨before, rfl⟩
  · simp
  · simp

theorem base_append {front name : List Char} (hfront : Front front) (hname : Component name) :
    base (front ++ name) = name := (base_beforeBase_append hfront hname).1

theorem beforeBase_append {front name : List Char} (hfront : Front front) (hname : Component name) :
    beforeBase (front ++ name) = front := (base_beforeBase_append hfront hname).2

theorem fileName?_append {front name : List Char} (hfront : Front front) (hname : Component name) :
    fileName? (String.ofList (front ++ name)) =
      if name = ['.', '.'] then none else some (String.ofList name) := by
  rw [fileName?, String.toList_ofList, base_append hfront hname]
  simp [hname.ne_nil, hname.ne_dot]

/-- A character stands in a text for a last time. -/
theorem eq_append_cons_of_mem_last {c : Char} {cs : List Char} (h : c ∈ cs) :
    ∃ before after, cs = before ++ c :: after ∧ c ∉ after := by
  obtain ⟨xs, ys, heq, hxs⟩ := List.eq_append_cons_of_mem (List.mem_reverse.mpr h)
  refine ⟨ys.reverse, xs.reverse, ?_, by simpa using hxs⟩
  rw [← List.reverse_reverse cs, heq]
  simp

/-- A text that does not end with a slash is a name behind a front. -/
theorem exists_front {cs : List Char} (hne : cs ≠ []) (hslash : cs.getLast? ≠ some '/') :
    ∃ front name, cs = front ++ name ∧ Front front ∧ name ≠ [] ∧ '/' ∉ name := by
  by_cases hmem : '/' ∈ cs
  · obtain ⟨before, name, rfl, hname⟩ := eq_append_cons_of_mem_last hmem
    refine ⟨before ++ ['/'], name, by simp, .inr ⟨before, rfl⟩, ?_, hname⟩
    rintro rfl
    exact hslash (by simp)
  · exact ⟨[], cs, rfl, .inl rfl, hne, hmem⟩

/-! ### Extensions

The extension is what follows the last point of a name.  A point at the front of a name begins no
extension, so hidden files have none. -/

/-- The last point parts the stem from the extension, unless the stem is empty. -/
theorem splitExtension_append {stem ending : List Char} (hending : '.' ∉ ending) :
    splitExtension (stem ++ '.' :: ending) =
      if stem = [] then ('.' :: ending, none) else (stem, some ending) := by
  have hpoint := ne_of_mem_reverse hending
  have hreverse : (stem ++ '.' :: ending).reverse = ending.reverse ++ '.' :: stem.reverse := by simp
  rw [splitExtension, hreverse, List.takeWhile_append_of_pos hpoint,
    List.dropWhile_append_of_pos hpoint]
  by_cases hstem : stem = [] <;> simp [hstem]

theorem splitExtension_of_not_mem {name : List Char} (h : '.' ∉ name) :
    splitExtension name = (name, none) := by
  have hdrop : name.reverse.dropWhile (fun c => decide (c ≠ '.')) = [] := by
    rw [← List.append_nil name.reverse, List.dropWhile_append_of_pos (ne_of_mem_reverse h)]
    rfl
  simp only [splitExtension, hdrop, List.drop_nil, if_true]

/-- A name has no extension, or it is a stem and an extension behind a point. -/
theorem splitExtension_cases (name : List Char) :
    splitExtension name = (name, none) ∨
      ∃ stem ending, stem ≠ [] ∧ '.' ∉ ending ∧ name = stem ++ '.' :: ending := by
  by_cases hpoint : '.' ∈ name
  · obtain ⟨stem, ending, rfl, hending⟩ := eq_append_cons_of_mem_last hpoint
    by_cases hstem : stem = []
    · rw [splitExtension_append hending, if_pos hstem, hstem]
      exact .inl rfl
    · exact .inr ⟨stem, ending, hstem, hending, rfl⟩
  · exact .inl (splitExtension_of_not_mem hpoint)

theorem splitExtension_eq_some_iff {name ending : List Char} :
    (splitExtension name).2 = some ending ↔
      '.' ∉ ending ∧ ∃ stem, stem ≠ [] ∧ name = stem ++ '.' :: ending := by
  constructor
  · intro h
    rcases splitExtension_cases name with hnone | ⟨stem, ending', hstem, hending, rfl⟩
    · rw [hnone] at h
      cases h
    · rw [splitExtension_append hending, if_neg hstem] at h
      obtain rfl : ending' = ending := Option.some.inj h
      exact ⟨hending, stem, hstem, rfl⟩
  · rintro ⟨hending, stem, hstem, rfl⟩
    rw [splitExtension_append hending, if_neg hstem]

theorem extension?_append {front name : List Char} (hfront : Front front) (hname : Component name)
    (hdots : name ≠ ['.', '.']) :
    extension? (String.ofList (front ++ name)) = (splitExtension name).2.map String.ofList := by
  rw [extension?, fileName?_append hfront hname, if_neg hdots]
  cases hsplit : (splitExtension name).2 <;> simp [hsplit]

/-- A name without extension gets one. -/
theorem withExtension_of_none {front name : List Char} (hfront : Front front)
    (hname : Component name) (hdots : name ≠ ['.', '.'])
    (hsplit : splitExtension name = (name, none)) (ending : String) :
    withExtension (String.ofList (front ++ name)) ending =
      String.ofList (front ++ (name ++ '.' :: ending.toList)) := by
  have hdrop : dropExtension (String.ofList (front ++ name)) = String.ofList (front ++ name) := by
    rw [dropExtension, extension?_append hfront hname hdots, hsplit]
    rfl
  rw [withExtension, hdrop, setExtension, fileName?_append hfront hname, if_neg hdots]
  simp [beforeBase_append hfront hname, hsplit]

/-- A stem with an extension is a component. -/
theorem component_append {stem ending : List Char} (hne : stem ≠ []) (hstem : '/' ∉ stem)
    (hending : '/' ∉ ending) : Component (stem ++ '.' :: ending) := by
  refine ⟨by simp, by simp [hstem, hending], fun hdot => ?_⟩
  obtain ⟨c, cs, rfl⟩ := List.exists_cons_of_ne_nil hne
  simp at hdot

/-- A name with an extension gets another one, unless its stem is a point. -/
theorem withExtension_of_stem {front stem old : List Char} (hfront : Front front)
    (hname : Component (stem ++ '.' :: old)) (hdots : stem ++ '.' :: old ≠ ['.', '.'])
    (hstem : stem ≠ []) (hold : '.' ∉ old) (ending : String) :
    withExtension (String.ofList (front ++ (stem ++ '.' :: old))) ending =
      String.ofList (front ++ (stem ++ '.' :: if stem = ['.'] then [] else ending.toList)) := by
  have hdrop : dropExtension (String.ofList (front ++ (stem ++ '.' :: old))) =
      String.ofList (front ++ (stem ++ ['.'])) := by
    have hcut : front ++ (stem ++ '.' :: old) = (front ++ (stem ++ ['.'])) ++ old := by simp
    rw [dropExtension, extension?_append hfront hname hdots, splitExtension_append hold,
      if_neg hstem, hcut]
    dsimp only [Option.map_some]
    rw [String.toList_ofList, String.length_ofList, String.length_ofList, List.length_append,
      Nat.add_sub_cancel, List.take_left]
  have hslash : '/' ∉ stem := fun hmem => hname.slash (List.mem_append_left _ hmem)
  have hpoint : Component (stem ++ ['.']) := component_append hstem hslash List.not_mem_nil
  rw [withExtension, hdrop, setExtension, fileName?_append hfront hpoint, String.toList_ofList,
    beforeBase_append hfront hpoint]
  by_cases hone : stem = ['.']
  · simp [hone]
  · have hne : stem ++ ['.'] ≠ ['.', '.'] := fun heq => hone (List.append_inj_left' heq rfl)
    rw [if_neg hne, if_neg hone]
    simp [splitExtension_append, hstem]

/-- The name with another extension, which can be no file name any more. -/
def renamed (name ending : List Char) : List Char :=
  match splitExtension name with
  | (stem, none) => stem ++ '.' :: ending
  | (stem, some _) => stem ++ '.' :: if stem = ['.'] then [] else ending

theorem withExtension_append {front name : List Char} (hfront : Front front)
    (hname : Component name) (hdots : name ≠ ['.', '.']) (ending : String) :
    withExtension (String.ofList (front ++ name)) ending =
      String.ofList (front ++ renamed name ending.toList) := by
  unfold renamed
  rcases splitExtension_cases name with hnone | ⟨stem, old, hstem, hold, rfl⟩
  · rw [withExtension_of_none hfront hname hdots hnone, hnone]
  · rw [withExtension_of_stem hfront hname hdots hstem hold,
      splitExtension_append hold, if_neg hstem]

theorem component_renamed {name ending : List Char} (hname : Component name)
    (hending : '/' ∉ ending) : Component (renamed name ending) := by
  unfold renamed
  rcases splitExtension_cases name with hnone | ⟨stem, old, hstem, hold, rfl⟩
  · rw [hnone]
    exact component_append hname.ne_nil hname.slash hending
  · rw [splitExtension_append hold, if_neg hstem]
    have hslash : '/' ∉ stem := fun hmem => hname.slash (List.mem_append_left _ hmem)
    refine component_append hstem hslash ?_
    split
    · exact List.not_mem_nil
    · exact hending

/-- A name stays the same if the new extension is the one it has. -/
theorem renamed_eq_self_iff {name ending : List Char} (hdots : renamed name ending ≠ ['.', '.']) :
    renamed name ending = name ↔ (splitExtension name).2 = some ending := by
  unfold renamed at hdots ⊢
  rcases splitExtension_cases name with hnone | ⟨stem, old, hstem, hold, rfl⟩
  · simp [hnone]
  · rw [splitExtension_append hold, if_neg hstem] at hdots ⊢
    dsimp only at hdots ⊢
    split_ifs at hdots ⊢ with hone
    · exact absurd (by rw [hone]; rfl) hdots
    · simp [eq_comm]

/-! ### Joining -/

/-- The front of the names in a directory. -/
def frontOf (directory : String) : List Char :=
  if directory.toList = [] ∨ directory.toList.getLast? = some '/' then directory.toList
  else directory.toList ++ ['/']

theorem front_frontOf (directory : String) : Front (frontOf directory) := by
  unfold frontOf
  split
  · rename_i h
    exact h.imp_right fun hlast => ⟨_, (List.dropLast_append_getLast? '/' hlast).symm⟩
  · exact .inr ⟨_, rfl⟩

theorem join_eq (directory name : String) :
    join directory name = String.ofList (frontOf directory ++ name.toList) := by
  unfold join
  split
  · rename_i hlast
    rw [List.getLast?_eq_none_iff] at hlast
    simp [frontOf, hlast]
  · rename_i hlast
    simp [frontOf, hlast]
  · rename_i c hc hlast
    have hne : directory.toList ≠ [] := by
      intro h
      simp [h] at hlast
    have hslash : ¬ directory.toList.getLast? = some '/' := by
      intro h
      exact hc (Option.some.inj (hlast.symm.trans h))
    rw [frontOf, if_neg (not_or.mpr ⟨hne, hslash⟩)]
    simp [String.append_assoc]

end Path

namespace FileTree

open WidgetLayout.Path (Front Component frontOf)

theorem names_front {front name : List Char} (hfront : Front front) (hne : name ≠ [])
    (hslash : '/' ∉ name) :
    names (String.ofList (front ++ name)) =
      names (String.ofList front) ++ [String.ofList name] := by
  rcases hfront with rfl | ⟨before, rfl⟩
  · exact names_of_not_mem hne hslash
  · have hbefore : names (String.ofList (before ++ ['/'])) = names (String.ofList before) := by
      rw [names_append]
      exact List.append_nil _
    rw [List.append_assoc, List.singleton_append, names_append, hbefore,
      names_of_not_mem hne hslash]

theorem names_frontOf (directory : String) :
    names (String.ofList (frontOf directory)) = names directory := by
  unfold frontOf
  split
  · rw [String.ofList_toList]
  · rw [names_append, String.ofList_toList]
    exact List.append_nil _

/-- A name in a directory is behind the names that lead to the directory. -/
theorem names_join {directory name : String} (hne : name.toList ≠ []) (hslash : '/' ∉ name.toList) :
    names (Path.join directory name) = names directory ++ [name] := by
  rw [Path.join_eq, names_front (Path.front_frontOf directory) hne hslash, names_frontOf,
    String.ofList_toList]

/-- Where a path starts is to be seen in its front. -/
theorem origin_front {front name : List Char} (hfront : Front front) (hslash : '/' ∉ name)
    (t : FileTree) : t.origin (String.ofList (front ++ name)) = t.origin (String.ofList front) := by
  rw [FileTree.origin, FileTree.origin, String.toList_ofList, String.toList_ofList]
  rcases hfront with rfl | ⟨before, rfl⟩
  · have hhead : name.head? ≠ some '/' := fun h => hslash (List.mem_of_head? h)
    simp [hhead]
  · rw [List.head?_append_of_ne_nil _ (by simp)]

theorem origin_frontOf (directory : String) (t : FileTree) :
    t.origin (String.ofList (frontOf directory)) = t.origin directory := by
  unfold frontOf
  split
  · rw [String.ofList_toList]
  · rename_i h
    have hne : directory.toList ≠ [] := fun hnil => h (.inl hnil)
    rw [FileTree.origin, FileTree.origin, String.toList_ofList, List.head?_append_of_ne_nil _ hne]

theorem origin_join {directory name : String} (hslash : '/' ∉ name.toList) (t : FileTree) :
    t.origin (Path.join directory name) = t.origin directory := by
  rw [Path.join_eq, origin_front (Path.front_frontOf directory) hslash, origin_frontOf]

end FileTree

end WidgetLayout
