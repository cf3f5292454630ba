import Mathlib.Data.List.Induction

/-!
# Editing a line

A user edits a line of text by inserting characters at its end, by erasing the last one, and by entering the line.
A terminal shows the line: it prints characters at its cursor, or moves the cursor back. An editor that prints what
is inserted, and overwrites with a blank what is erased, keeps the line on the terminal.
-/

namespace LineEditor

variable {α : Type*} {room : ℕ} {c blank : α} {text : List α}

/-! ### What is edited -/

inductive Key (α : Type*)
  | enter
  | erase
  | insert (c : α)
  deriving DecidableEq

/-- A line as it has been edited, and what the editor has sent to the terminal for it. -/
structure Entry (α : Type*) where
  text : List α
  sent : List α

/-- The lines that have been entered, and the one that is being edited. -/
structure Session (α : Type*) where
  entered : List (Entry α)
  current : Entry α

namespace Session

section

variable (room : ℕ) (backspace blank : α)

/-- The session after a key, when there is room for some characters only. -/
def press (s : Session α) : Key α → Session α
  | .enter => ⟨s.entered ++ [s.current], ⟨[], []⟩⟩
  | .erase =>
    if s.current.text.length = 0 then s
    else ⟨s.entered, ⟨s.current.text.dropLast, s.current.sent ++ [backspace, blank, backspace]⟩⟩
  | .insert c =>
    if s.current.text.length < room then ⟨s.entered, ⟨s.current.text ++ [c], s.current.sent ++ [c]⟩⟩ else s

/-- The session after some keys. -/
def after (keys : List (Key α)) : Session α := keys.foldl (press room backspace blank) ⟨[], ⟨[], []⟩⟩

end

variable {backspace : α} {keys : List (Key α)} {key : Key α} {s : Session α}

lemma after_concat :
    after room backspace blank (keys ++ [key]) = (after room backspace blank keys).press room backspace blank key :=
  List.foldl_append

/-- Nothing is entered without Enter. -/
lemma entered_insert : (after room backspace blank (text.map Key.insert)).entered = [] := by
  induction text using List.reverseRecOn with
  | nil => rfl
  | append_singleton text c ih =>
    rw [List.map_append, List.map_singleton, after_concat, press]
    split_ifs
    · exact ih
    · exact ih

/-- A text for which there is room. -/
lemma after_insert (h : text.length ≤ room) :
    after room backspace blank (text.map Key.insert) = ⟨[], ⟨text, text⟩⟩ := by
  induction text using List.reverseRecOn with
  | nil => rfl
  | append_singleton text c ih =>
    rw [List.length_append, List.length_singleton] at h
    have hroom : text.length < room := by omega
    rw [List.map_append, List.map_singleton, after_concat, ih (by omega), press, if_pos hroom]

end Session

/-! ### What is shown -/

/-- A line of a terminal, without a margin: the characters before the cursor, the nearest one first, and those from
the cursor on. -/
structure Line (α : Type*) where
  before : List α
  after : List α

namespace Line

variable {l : Line α}

/-- A character takes the place of the one at the cursor. -/
def print (l : Line α) (c : α) : Line α := ⟨c :: l.before, l.after.tail⟩

/-- The cursor moves back, but not beyond the start of the line. -/
def back (l : Line α) : Line α :=
  match l.before with
  | [] => l
  | c :: before => ⟨before, c :: l.after⟩

/-- The line consists of the text and blanks, and the cursor is behind the text. -/
structure Shows (blank : α) (l : Line α) (text : List α) : Prop where
  before : l.before = text.reverse
  after : ∀ c ∈ l.after, c = blank

lemma shows_nil (blank : α) : (⟨[], []⟩ : Line α).Shows blank [] := ⟨rfl, List.forall_mem_nil _⟩

lemma Shows.print (h : l.Shows blank text) (c : α) : (l.print c).Shows blank (text ++ [c]) where
  before := by
    rw [Line.print, h.before, List.reverse_append]
    rfl
  after c' hc' := h.after c' (List.mem_of_mem_tail hc')

/-- Going back over a character, printing a blank and going back again erases the character. -/
lemma Shows.erase (h : l.Shows blank (text ++ [c])) : ((l.back.print blank).back).Shows blank text := by
  obtain ⟨before, after⟩ := l
  obtain rfl : before = c :: text.reverse := h.before.trans (by rw [List.reverse_append]; rfl)
  refine ⟨rfl, ?_⟩
  rintro c' (_ | ⟨_, hc'⟩)
  · rfl
  · exact h.after c' hc'

end Line

/-- What a terminal makes of a character: one of them moves the cursor back, the others are printed. -/
def put [DecidableEq α] (backspace : α) (l : Line α) (c : α) : Line α :=
  if c = backspace then l.back else l.print c

/-- The line after some characters have been sent to the terminal. -/
def display [DecidableEq α] (backspace : α) (sent : List α) : Line α := sent.foldl (put backspace) ⟨[], []⟩

variable [DecidableEq α] {backspace : α} {sent : List α}

/-- The characters sent at the start of a line show a text. -/
def Displays (backspace blank : α) (sent text : List α) : Prop := (display backspace sent).Shows blank text

lemma displays_nil (backspace blank : α) : Displays backspace blank [] [] := Line.shows_nil blank

lemma Displays.insert (h : Displays backspace blank sent text) (hc : c ≠ backspace) :
    Displays backspace blank (sent ++ [c]) (text ++ [c]) := by
  rw [Displays, display, List.foldl_append, List.foldl_cons, List.foldl_nil, put, if_neg hc]
  exact Line.Shows.print h c

lemma Displays.erase (h : Displays backspace blank sent (text ++ [c])) (hblank : blank ≠ backspace) :
    Displays backspace blank (sent ++ [backspace, blank, backspace]) text := by
  rw [Displays, display, List.foldl_append, List.foldl_cons, List.foldl_cons, List.foldl_cons, List.foldl_nil]
  simp only [put, if_neg hblank, ↓reduceIte]
  exact Line.Shows.erase h

/-- A text shows itself. -/
lemma displays_self (h : ∀ c ∈ text, c ≠ backspace) : Displays backspace blank text text := by
  induction text using List.reverseRecOn with
  | nil => exact displays_nil backspace blank
  | append_singleton text c ih =>
    have hc : c ≠ backspace := h c (by simp)
    exact (ih fun c' hc' => h c' (List.mem_append_left _ hc')).insert hc

/-! ### A session on a terminal -/

namespace Session

variable {front : List α} {keys : List (Key α)} {key : Key α} {s : Session α}

/-- The terminal shows the line, behind what stands in front of it. -/
def Shown (backspace blank : α) (front : List α) (e : Entry α) : Prop :=
  Displays backspace blank (front ++ e.sent) (front ++ e.text)

/-- A key keeps the line that is being edited on the terminal. -/
lemma shown_press (hblank : blank ≠ backspace) (hfront : ∀ c ∈ front, c ≠ backspace)
    (hkey : ∀ c, key = .insert c → c ≠ backspace) (h : Shown backspace blank front s.current) :
    Shown backspace blank front (s.press room backspace blank key).current := by
  cases key with
  | enter =>
    rw [press, Shown, List.append_nil]
    exact displays_self hfront
  | erase =>
    rw [press]
    split_ifs with hempty
    · exact h
    · have hne : s.current.text ≠ [] := fun hnil => hempty (List.length_eq_zero_iff.mpr hnil)
      rw [Shown, ← List.append_assoc]
      refine Displays.erase (c := s.current.text.getLast hne) ?_ hblank
      rw [List.append_assoc, List.dropLast_concat_getLast]
      exact h
  | insert c =>
    rw [press]
    split_ifs
    · rw [Shown, ← List.append_assoc, ← List.append_assoc]
      exact h.insert (hkey c rfl)
    · exact h

/-- Every line that has been entered, and the one that is being edited, is or was shown. -/
theorem shown_after (hblank : blank ≠ backspace) (hfront : ∀ c ∈ front, c ≠ backspace)
    (hkeys : ∀ c, Key.insert c ∈ keys → c ≠ backspace) :
    (∀ e ∈ (after room backspace blank keys).entered, Shown backspace blank front e) ∧
      Shown backspace blank front (after room backspace blank keys).current := by
  induction keys using List.reverseRecOn with
  | nil =>
    refine ⟨List.forall_mem_nil _, ?_⟩
    rw [after, List.foldl_nil, Shown, List.append_nil]
    exact displays_self hfront
  | append_singleton keys key ih =>
    obtain ⟨hentered, hcurrent⟩ := ih fun c hc => hkeys c (List.mem_append_left _ hc)
    have hkey : ∀ c, key = .insert c → c ≠ backspace := by
      rintro c rfl
      exact hkeys c (by simp)
    rw [after_concat]
    refine ⟨?_, shown_press hblank hfront hkey hcurrent⟩
    cases key with
    | enter =>
      intro e he
      rcases List.mem_append.mp he with he | he
      · exact hentered e he
      · rw [List.mem_singleton.mp he]
        exact hcurrent
    | erase | insert c =>
      rw [press]
      split_ifs
      · exact hentered
      · exact hentered

end Session

end LineEditor
