import Mathlib.Algebra.Ring.Parity
import Mathlib.Data.List.Induction
import SourceAtlas.Panel.Markdown

/-! # Opening and closing sections

A section is opened or closed by its index or by its title, or all of them are opened at once. No
title of a built panel occurs twice, so both ways reach the same section. Nothing but open and
closed ever changes, and this is told by the actions behind the last one that opened everything. The
body of a closed section leaves no trace in the Markdown text. -/

namespace SourceAtlas.Panel

/-! ## Actions -/

inductive Action where
  | toggle (index : Nat)
  | toggleTitle (title : String)
  | expandAll
  deriving DecidableEq, Repr

/-- The panel after one action, with the new state of the section that was opened or closed. -/
def act (p : Panel) : Action → Option Bool × Panel
  | .toggle index => p.toggle index
  | .toggleTitle title => p.toggleTitle title
  | .expandAll => (none, p.expandAll)

def after (p : Panel) (actions : List Action) : Panel := actions.foldl (fun p a => (p.act a).2) p

namespace Action

/-- Whether an action opens or closes the section with the given index and title. -/
def reaches (index : Nat) (title : String) : Action → Bool
  | .toggle i => i == index
  | .toggleTitle t => t == title
  | .expandAll => false

/-- The actions behind the last one that opens all sections. -/
def recent (actions : List Action) : List Action :=
  (actions.reverse.takeWhile (· ≠ .expandAll)).reverse

/-- Whether a section, closed at first, is open after some actions: the number of recent ones that
reach it is even if all sections have been opened before, else odd. -/
def Opens (index : Nat) (title : String) (actions : List Action) : Prop :=
  if .expandAll ∈ actions then Even ((recent actions).countP (reaches index title))
  else Odd ((recent actions).countP (reaches index title))

instance (index : Nat) (title : String) (actions : List Action) :
    Decidable (Opens index title actions) :=
  inferInstanceAs (Decidable (if .expandAll ∈ actions then
    Even ((recent actions).countP (reaches index title))
    else Odd ((recent actions).countP (reaches index title))))

def leavesOpen (a : Action) (index : Nat) (s : Section) : Bool :=
  a = .expandAll || (a.reaches index s.title != s.expanded)

theorem recent_expandAll (actions : List Action) : recent (actions ++ [.expandAll]) = [] := by
  simp [recent]

theorem recent_snoc {a : Action} (ha : a ≠ .expandAll) (actions : List Action) :
    recent (actions ++ [a]) = recent actions ++ [a] := by
  simp [recent, ha]

theorem opens_nil (index : Nat) (title : String) : ¬ Opens index title [] := by
  simp [Opens, recent]

theorem opens_expandAll (index : Nat) (title : String) (actions : List Action) :
    Opens index title (actions ++ [.expandAll]) := by
  simp [Opens, recent_expandAll]

/-- An action that opens or closes sections changes the parity for those that it reaches. -/
theorem opens_snoc {a : Action} (ha : a ≠ .expandAll) (index : Nat) (title : String)
    (actions : List Action) : Opens index title (actions ++ [a]) ↔
      (a.reaches index title = true ↔ ¬ Opens index title actions) := by
  have hmem : .expandAll ∈ actions ++ [a] ↔ .expandAll ∈ actions := by simp [Ne.symm ha]
  unfold Opens
  rw [recent_snoc ha, List.countP_append, List.countP_singleton]
  by_cases hreach : a.reaches index title = true
  · simp only [hmem, hreach, if_true, true_iff, Nat.even_add_one, Nat.odd_add_one, ← apply_ite Not]
  · simp [hmem, hreach]

end Action

/-! ## One action -/

def titles (p : Panel) : List String := p.sections.map (·.title)

/-- The sections, open or closed: their titles and bodies, in order. -/
def contents (p : Panel) : List (String × Body) := p.sections.map fun s => (s.title, s.body)

/-- The panel with those sections open that `f` tells. -/
def opened (p : Panel) (f : Nat → Section → Bool) : Panel :=
  { p with sections := p.sections.mapIdx fun i s => { s with expanded := f i s } }

section Opened

variable (p : Panel) (f g : Nat → Section → Bool)

theorem opened_sections : (p.opened f).sections =
    p.sections.mapIdx fun i s => { s with expanded := f i s } :=
  rfl

theorem opened_getElem? (i : Nat) : (p.opened f).sections[i]? =
    p.sections[i]?.map fun s => { s with expanded := f i s } :=
  List.getElem?_mapIdx ..

theorem opened_titles : (p.opened f).titles = p.titles := by
  refine List.ext_getElem? fun i => ?_
  simp [titles, opened_getElem?, Function.comp_def]

theorem opened_contents : (p.opened f).contents = p.contents := by
  refine List.ext_getElem? fun i => ?_
  simp [contents, opened_getElem?, Function.comp_def]

theorem opened_opened :
    (p.opened f).opened g = p.opened fun i s => g i { s with expanded := f i s } := by
  rw [opened, opened_sections, List.mapIdx_mapIdx]
  rfl

end Opened

section Step

variable {p : Panel} {i : Nat} {s : Section} {title : String}

theorem toggle_some (h : p.sections[i]? = some s) : p.toggle i =
    (some !s.expanded,
      { p with sections := p.sections.set i { s with expanded := !s.expanded } }) := by
  rw [toggle, h]

theorem toggle_none (h : p.sections.length ≤ i) : p.toggle i = (none, p) := by
  rw [toggle, List.getElem?_eq_none h]

/-- Without repeated titles, a title tells which section is meant. -/
theorem index_unique (hp : p.titles.Nodup) {j : Nat} {t : Section} (hs : p.sections[i]? = some s)
    (ht : p.sections[j]? = some t) (h : s.title = t.title) : i = j := by
  have hi : p.titles[i]? = some s.title := by rw [titles, List.getElem?_map, hs]; rfl
  have hj : p.titles[j]? = some t.title := by rw [titles, List.getElem?_map, ht]; rfl
  have hlt : i < p.titles.length := (List.getElem?_eq_some_iff.mp hi).1
  exact (List.getElem?_inj hlt hp).mp (hi.trans ((congrArg some h).trans hj.symm))

/-- The way by title and the way by index are the same. -/
theorem toggleTitle_some (hp : p.titles.Nodup) (h : p.sections[i]? = some s) :
    p.toggleTitle s.title = p.toggle i := by
  unfold toggleTitle
  split
  · next j hj =>
    obtain ⟨hlt, htitle, -⟩ := List.findIdx?_eq_some_iff_getElem.mp hj
    have hij : i = j :=
      index_unique hp h (List.getElem?_eq_getElem hlt) (beq_iff_eq.mp htitle).symm
    rw [hij]
  · next hnone =>
    have := List.findIdx?_eq_none_iff.mp hnone s (List.mem_of_getElem? h)
    simp at this

theorem toggleTitle_none (h : title ∉ p.titles) : p.toggleTitle title = (none, p) := by
  unfold toggleTitle
  split
  · next j hj =>
    obtain ⟨hlt, htitle, -⟩ := List.findIdx?_eq_some_iff_getElem.mp hj
    have hmem : p.sections[j].title ∈ p.titles := List.mem_map_of_mem (List.getElem_mem hlt)
    exact absurd (beq_iff_eq.mp htitle ▸ hmem) h
  · rfl

/-- An action that reaches no section leaves them as they are. -/
theorem opened_none {a : Action} (ha : a ≠ .expandAll)
    (h : ∀ j t, p.sections[j]? = some t → a.reaches j t.title = false) :
    p.opened a.leavesOpen = p := by
  have hsections : (p.opened a.leavesOpen).sections = p.sections := by
    refine List.ext_getElem? fun j => ?_
    rw [opened_getElem?]
    cases ht : p.sections[j]? with
    | none => rfl
    | some t => simp [Action.leavesOpen, ha, h j t ht]
  rw [opened, ← opened_sections, hsections]

/-- An action that reaches one section changes this one. -/
theorem opened_one {a : Action} (ha : a ≠ .expandAll) (hs : p.sections[i]? = some s)
    (h : ∀ j t, p.sections[j]? = some t → (a.reaches j t.title = true ↔ i = j)) :
    p.opened a.leavesOpen = (p.toggle i).2 := by
  have hsections : (p.opened a.leavesOpen).sections =
      p.sections.set i { s with expanded := !s.expanded } := by
    refine List.ext_getElem? fun j => ?_
    rw [opened_getElem?, List.getElem?_set]
    by_cases hij : i = j
    · subst hij
      have hlt : i < p.sections.length := (List.getElem?_eq_some_iff.mp hs).1
      rw [if_pos rfl, if_pos hlt, hs]
      simp [Action.leavesOpen, ha, (h i s hs).mpr rfl]
    · rw [if_neg hij]
      cases ht : p.sections[j]? with
      | none => rfl
      | some t =>
        have hreach : a.reaches j t.title = false := Bool.eq_false_iff.mpr (mt (h j t ht).mp hij)
        simp [Action.leavesOpen, ha, hreach]
  rw [toggle_some hs, opened, ← opened_sections, hsections]

/-- What an action does: it opens or closes the sections that it reaches and changes nothing
else. -/
theorem act_eq (hp : p.titles.Nodup) (a : Action) : (p.act a).2 = p.opened a.leavesOpen := by
  cases a with
  | toggle index =>
    cases h : p.sections[index]? with
    | none =>
      have hlength := List.getElem?_eq_none_iff.mp h
      rw [opened_none (by simp) fun j t ht => ?_, act, toggle_none hlength]
      have hlt := (List.getElem?_eq_some_iff.mp ht).1
      simp only [Action.reaches, beq_eq_false_iff_ne]
      omega
    | some s =>
      rw [opened_one (by simp) h fun j t _ => by simp [Action.reaches], act]
  | toggleTitle title =>
    by_cases h : title ∈ p.titles
    · obtain ⟨s, hmem, rfl⟩ := List.mem_map.mp h
      obtain ⟨i, hs⟩ := List.mem_iff_getElem?.mp hmem
      rw [opened_one (by simp) hs fun j t ht => ?_, act, toggleTitle_some hp hs]
      simp only [Action.reaches, beq_iff_eq]
      constructor
      · exact index_unique hp hs ht
      · rintro rfl
        rw [Option.some.inj (hs.symm.trans ht)]
    · rw [opened_none (by simp) fun j t ht => ?_, act, toggleTitle_none h]
      simp only [Action.reaches, beq_eq_false_iff_ne]
      rintro rfl
      exact h (List.mem_map_of_mem (List.mem_of_getElem? ht))
  | expandAll =>
    have hall : (p.opened Action.expandAll.leavesOpen).sections =
        p.sections.map fun s => { s with expanded := true } := by
      refine List.ext_getElem? fun j => ?_
      rw [opened_getElem?, List.getElem?_map]
      rfl
    rw [act, expandAll, ← hall]
    rfl

/-- A section that is reached gets the other state, and this is given back. -/
theorem act_some (hp : p.titles.Nodup) {a : Action} (hs : p.sections[i]? = some s)
    (h : a.reaches i s.title = true) : (p.act a).1 = some !s.expanded := by
  cases a with
  | toggle index =>
    obtain rfl : index = i := by simpa [Action.reaches] using h
    rw [act, toggle_some hs]
  | toggleTitle title =>
    obtain rfl : title = s.title := by simpa [Action.reaches] using h
    rw [act, toggleTitle_some hp hs, toggle_some hs]
  | expandAll => simp [Action.reaches] at h

/-- Where no section is reached, nothing is given back and nothing changes. -/
theorem act_none {a : Action} (ha : a ≠ .expandAll)
    (h : ∀ i s, p.sections[i]? = some s → a.reaches i s.title = false) : p.act a = (none, p) := by
  cases a with
  | toggle index =>
    refine toggle_none (Nat.le_of_not_lt fun hlt => ?_)
    have := h index _ (List.getElem?_eq_getElem hlt)
    simp [Action.reaches] at this
  | toggleTitle title =>
    refine toggleTitle_none fun hmem => ?_
    obtain ⟨s, hs, rfl⟩ := List.mem_map.mp hmem
    obtain ⟨i, hi⟩ := List.mem_iff_getElem?.mp hs
    have := h i s hi
    simp [Action.reaches] at this
  | expandAll => exact absurd rfl ha

end Step

/-! ## Runs -/

section Run

variable {p : Panel}

/-- After some actions each section of a panel that was closed at first is open or closed as the
actions tell, and nothing else has changed. -/
theorem after_eq (hp : p.titles.Nodup) (hclosed : ∀ s ∈ p.sections, s.expanded = false)
    (actions : List Action) :
    p.after actions = p.opened fun i s => decide (Action.Opens i s.title actions) := by
  induction actions using List.reverseRecOn with
  | nil =>
    have hsections : (p.opened fun i s => decide (Action.Opens i s.title [])).sections =
        p.sections := by
      refine List.ext_getElem? fun i => ?_
      rw [opened_getElem?]
      cases hs : p.sections[i]? with
      | none => rfl
      | some s => simp [Action.opens_nil, ← hclosed s (List.mem_of_getElem? hs)]
    rw [opened, ← opened_sections, hsections]
    rfl
  | append_singleton actions a ih =>
    have hlast : p.after (actions ++ [a]) = ((p.after actions).act a).2 := by
      rw [after, List.foldl_append]
      rfl
    have htitles : (p.after actions).titles.Nodup := by rw [ih, opened_titles]; exact hp
    rw [hlast, act_eq htitles, ih, opened_opened]
    congr 1
    funext i s
    by_cases ha : a = .expandAll
    · subst ha
      simp [Action.leavesOpen, Action.opens_expandAll]
    · cases hreach : a.reaches i s.title <;>
        simp [Action.leavesOpen, ha, Action.opens_snoc ha, hreach]

end Run

/-! ## Built panels -/

section Build

theorem listSection_titles (title : String) (items : List String) :
    ((listSection title items).map (·.title)).Sublist [title] := by
  unfold listSection
  split
  · exact List.nil_sublist _
  · exact List.Sublist.refl _

/-- The sections of a file are some of six, in a fixed order. -/
theorem fileSections_titles (n : Node) : ((fileSections n).map (·.title)).Sublist
    ["Published Readme", "Gen AI Analysis", "Dependencies", "Inputs", "Outputs",
      "Source Code"] := by
  have hreadme : ((n.entry.readme.toList.map fun readme =>
      ({ title := "Published Readme", body := .text readme } : Section)).map (·.title)).Sublist
        ["Published Readme"] := by
    cases n.entry.readme with
    | none => exact List.nil_sublist _
    | some readme => exact List.Sublist.refl _
  simp only [fileSections, List.map_append]
  exact ((((hreadme.append (List.Sublist.refl _)).append (listSection_titles ..)).append
    (listSection_titles ..)).append (listSection_titles ..)).append (List.Sublist.refl _)

theorem build_titles (subject : Subject) : (build subject).titles.Nodup := by
  cases subject with
  | full n =>
    have hfile : ["Published Readme", "Gen AI Analysis", "Dependencies", "Inputs", "Outputs",
        "Source Code"].Nodup := by decide
    have hdirectory : ["Subdirectories", "Files"].Nodup := by decide
    show (List.map (·.title) (if n.isDirectory then directorySections n else fileSections n)).Nodup
    split
    · exact hdirectory
    · exact hfile.sublist (fileSections_titles n)
  | minimal e => exact List.nodup_nil

theorem build_closed (subject : Subject) : ∀ s ∈ (build subject).sections, s.expanded = false := by
  have hlist {title : String} {items : List String} :
      ∀ s ∈ listSection title items, s.expanded = false := by
    unfold listSection
    split <;> simp
  cases subject with
  | full n =>
    show ∀ s ∈ (if n.isDirectory then directorySections n else fileSections n), s.expanded = false
    split
    · simp [directorySections]
    · simp only [fileSections, List.forall_mem_append]
      exact ⟨⟨⟨⟨⟨by simp, by simp⟩, hlist⟩, hlist⟩, hlist⟩, by simp⟩
  | minimal e => exact nofun

/-- The names of nodes parted by kind, each part in the order of the nodes. -/
inductive Parted : List Node → List String → List String → Prop
  | nil : Parted [] [] []
  | directory {n : Node} {ns : List Node} {directories files : List String} : n.kind = .directory →
      Parted ns directories files → Parted (n :: ns) (n.name :: directories) files
  | file {n : Node} {ns : List Node} {directories files : List String} : n.kind = .file →
      Parted ns directories files → Parted (n :: ns) directories (n.name :: files)

theorem parted_childNames (n : Node) :
    Parted n.children (childNames n .directory) (childNames n .file) := by
  unfold childNames
  induction n.children with
  | nil => exact .nil
  | cons c cs ih =>
    cases hkind : c.kind with
    | directory => simpa [hkind] using Parted.directory hkind ih
    | file => simpa [hkind] using Parted.file hkind ih

end Build

/-! ## Markdown -/

section Markdown

variable {p q : Panel}

/-- `q` shows what `p` shows: the two differ at most in the bodies of closed sections. -/
structure ShowsSame (p q : Panel) : Prop where
  title : q.title = p.title
  facts : q.facts = p.facts
  message : q.message = p.message
  sections : List.Forall₂ (fun s t => t.title = s.title ∧ t.expanded = s.expanded ∧
    (s.expanded = true → t.body = s.body)) p.sections q.sections

theorem sectionMarkdown_eq {s t : Section} (htitle : t.title = s.title)
    (hexpanded : t.expanded = s.expanded) (hbody : s.expanded = true → t.body = s.body) :
    sectionMarkdown t = sectionMarkdown s := by
  unfold sectionMarkdown
  rw [htitle, hexpanded]
  cases h : s.expanded with
  | false => rfl
  | true => rw [hbody h]

theorem ShowsSame.toMarkdown_eq (h : ShowsSame p q) : q.toMarkdown = p.toMarkdown := by
  have hall {l m : List Section} (hlm : List.Forall₂ (fun s t => t.title = s.title ∧
      t.expanded = s.expanded ∧ (s.expanded = true → t.body = s.body)) l m) :
      m.map sectionMarkdown = l.map sectionMarkdown := by
    induction hlm with
    | nil => rfl
    | cons hst _ ih =>
      obtain ⟨htitle, hexpanded, hbody⟩ := hst
      rw [List.map_cons, List.map_cons, sectionMarkdown_eq htitle hexpanded hbody, ih]
  unfold toMarkdown
  rw [h.title, h.facts, h.message, hall h.sections]

/-- The body of an open section stands in the text. -/
theorem bodyMarkdown_shown {s : Section} (htitle : p.title ≠ "") (hs : s ∈ p.sections)
    (hopen : s.expanded = true) : (bodyMarkdown s.body).toList <:+: p.toMarkdown.toList := by
  have hbody : (bodyMarkdown s.body).toList <:+ (sectionMarkdown s).toList := by
    rw [sectionMarkdown, hopen, if_pos rfl, if_pos rfl, String.toList_append]
    exact List.suffix_append ..
  have hsection : (sectionMarkdown s).toList <:+:
      (String.join (p.sections.map sectionMarkdown)).toList := by
    obtain ⟨before, behind, hsplit⟩ := List.append_of_mem hs
    rw [hsplit, String.toList_join, List.map_append, List.flatMap_append, List.map_cons,
      List.flatMap_cons]
    exact (List.prefix_append ..).isInfix.trans (List.suffix_append ..).isInfix
  have hsections :
      (String.join (p.sections.map sectionMarkdown)).toList <:+ p.toMarkdown.toList := by
    unfold toMarkdown
    rw [if_neg (by simpa using htitle), String.toList_append]
    exact List.suffix_append ..
  exact (hbody.isInfix.trans hsection).trans hsections.isInfix

end Markdown

/-- After any actions on a built panel its texts are those it was built with; no title occurs twice,
so that a title and the index of its section reach the same one. A section is open if the actions
that reached it since all sections were last opened are even in number, or, if these never were,
odd; what an action gives back tells what it did, and one that reaches nothing does nothing. A
directory lists its children parted by kind. The Markdown text shows the bodies of the open
sections, and those of the closed ones leave no trace in it. -/
theorem built_after (subject : Subject) (actions : List Action) :
    let p := (build subject).after actions
    p.titles.Nodup ∧
    (p.title = (build subject).title ∧ p.facts = (build subject).facts ∧
      p.message = (build subject).message ∧ p.contents = (build subject).contents) ∧
    (∀ (i : Nat) (s : Section), p.sections[i]? = some s →
      p.toggleTitle s.title = p.toggle i ∧
      (s.expanded = true ↔
        if .expandAll ∈ actions then
          Even ((Action.recent actions).countP (Action.reaches i s.title))
        else Odd ((Action.recent actions).countP (Action.reaches i s.title))) ∧
      ∀ a : Action, a.reaches i s.title = true → (p.act a).1 = some !s.expanded) ∧
    (∀ a : Action, a ≠ .expandAll →
      (∀ (i : Nat) (s : Section), p.sections[i]? = some s → a.reaches i s.title = false) →
        p.act a = (none, p)) ∧
    (∀ n, subject = .full n → n.isDirectory = true → ∃ directories files,
      p.contents = [("Subdirectories", .list directories), ("Files", .list files)] ∧
        Parted n.children directories files) ∧
    (∀ q : Panel, ShowsSame p q → q.toMarkdown = p.toMarkdown) ∧
    ∀ s ∈ p.sections, p.title ≠ "" → s.expanded = true →
      (bodyMarkdown s.body).toList <:+: p.toMarkdown.toList := by
  intro p
  have hp : p = (build subject).opened fun i s => decide (Action.Opens i s.title actions) :=
    after_eq (build_titles subject) (build_closed subject) actions
  have htitles : p.titles.Nodup := by
    rw [hp, opened_titles]
    exact build_titles subject
  have hcontents : p.contents = (build subject).contents := by rw [hp, opened_contents]
  refine ⟨htitles, ⟨by rw [hp]; rfl, by rw [hp]; rfl, by rw [hp]; rfl, hcontents⟩, fun i s hs => ?_,
    fun a => act_none, fun n hn hdirectory => ?_, fun q => ShowsSame.toMarkdown_eq,
    fun s hs htitle hopen => bodyMarkdown_shown htitle hs hopen⟩
  · refine ⟨toggleTitle_some htitles hs, ?_, fun a => act_some htitles hs⟩
    rw [hp, opened_getElem?] at hs
    obtain ⟨t, -, rfl⟩ := Option.map_eq_some_iff.mp hs
    exact decide_eq_true_iff
  · refine ⟨childNames n .directory, childNames n .file, ?_, parted_childNames n⟩
    rw [hcontents, hn]
    show (List.map _ (if n.isDirectory then directorySections n else fileSections n)) = _
    rw [if_pos hdirectory]
    rfl

/-- The last section is closed again by its title, and no section has the index 7. -/
example : ((build (.full (.file "a.c"))).after
    [.toggle 1, .expandAll, .toggleTitle "Source Code", .toggle 7]).sections.map
      (fun s => (s.title, s.expanded)) = [("Gen AI Analysis", true), ("Source Code", false)] := by
  decide

end SourceAtlas.Panel
