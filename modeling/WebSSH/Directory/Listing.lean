import Mathlib.Data.List.Basic

/-!
# Directory listings

`_SFTPDirectoryListing` of `sftp_handler.py`: one enumeration of a directory that is read page by
page. What the enumeration yields is fixed when it is opened.
-/

namespace WebSSH.Directory

/-- How the iterator of the entries ends. -/
inductive Ending
  /-- `StopIteration` -/
  | stop
  /-- Another exception, with its public text. -/
  | raise (error : String)
  deriving DecidableEq, Repr

structure Listing (α : Type) where
  /-- What the iterator still yields. -/
  entries : List α
  ending : Ending
  lookahead : Option α
  closed : Bool
  /-- How often the contexts of the entries and of the session were left. -/
  exits : Nat
  deriving DecidableEq

/-- What `read_page` returns. -/
structure PageResult (α : Type) where
  page : Option (List α)
  error : Option String
  hasMore : Bool
  deriving DecidableEq

namespace Listing

variable {α : Type}

/-- `__init__`, when nothing is raised -/
def new (entries : List α) (ending : Ending) : Listing α := ⟨entries, ending, none, false, 0⟩

def close (l : Listing α) : Listing α :=
  if l.closed then l else { l with closed := true, exits := l.exits + 1 }

/-- What reading on returns when the iterator has ended. -/
def ended (l : Listing α) (page : List α) : PageResult α × Listing α :=
  match l.ending with
  | .stop => (⟨some page, none, false⟩, l.close)
  | .raise error => (⟨none, some error, false⟩, l.close)

/-- The `while` loop, and then the lookahead. -/
def fill (l : Listing α) (page : List α) : Nat → PageResult α × Listing α
  | 0 =>
    match l.entries with
    | [] => l.ended page
    | entry :: entries =>
      (⟨some page, none, true⟩, { l with entries := entries, lookahead := some entry })
  | missing + 1 =>
    match l.entries with
    | [] => l.ended page
    | entry :: entries => { l with entries := entries }.fill (page ++ [entry]) missing

def readPage (l : Listing α) (pageSize : Nat) : PageResult α × Listing α :=
  if l.closed then (⟨none, some "Directory listing expired", false⟩, l)
  else
    let page := l.lookahead.toList
    { l with lookahead := none }.fill page (pageSize - page.length)

/-- What the listing has not put on a page. -/
def rest (l : Listing α) : List α := l.lookahead.toList ++ l.entries

/-! ## Closing -/

/-- The contexts are left once, when the listing is closed. -/
def Exited (l : Listing α) : Prop := l.exits = if l.closed then 1 else 0

theorem exited_new (entries : List α) (ending : Ending) : (new entries ending).Exited := rfl

theorem Exited.close {l : Listing α} (h : l.Exited) : l.close.Exited := by
  rw [Listing.close]
  split
  · exact h
  · rename_i hclosed
    simp only [Exited, hclosed] at h
    simp [Exited, h]

@[simp] theorem closed_close (l : Listing α) : l.close.closed = true := by
  rw [Listing.close]
  split
  · assumption
  · rfl

theorem exited_ended {l : Listing α} (h : l.Exited) (page : List α) : (l.ended page).2.Exited := by
  rw [ended]
  split
  · exact h.close
  · exact h.close

theorem exited_fill {l : Listing α} (h : l.Exited) (page : List α) (missing : Nat) :
    (l.fill page missing).2.Exited := by
  induction missing generalizing l page with
  | zero =>
    rw [fill.eq_def]
    dsimp only
    split
    · exact exited_ended h page
    · exact h
  | succ missing ih =>
    rw [fill.eq_def]
    dsimp only
    split
    · exact exited_ended h page
    · rename_i entry entries _
      exact ih (l := { l with entries := entries }) h _

theorem Exited.readPage {l : Listing α} (h : l.Exited) (pageSize : Nat) :
    (l.readPage pageSize).2.Exited := by
  rw [Listing.readPage]
  split
  · exact h
  · exact exited_fill (l := { l with lookahead := none }) h _ _

/-! ## Pages -/

/-- What a `read_page` of an open listing does: an error closes the listing, and so does the last
page; another page leaves it open. -/
def Reads (r : PageResult α) (l l' : Listing α) : Prop :=
  match r with
  | ⟨some page, none, true⟩ => l'.closed = false ∧ l.rest = page ++ l'.rest
  | ⟨some page, none, false⟩ => l'.closed = true ∧ page = l.rest
  | ⟨_, some _, _⟩ => l'.closed = true
  | ⟨none, none, _⟩ => False

theorem reads_ended (l : Listing α) (page : List α) :
    (∃ error, (l.ended page).1 = ⟨none, some error, false⟩ ∧ (l.ended page).2.closed = true) ∨
      (l.ended page).1 = ⟨some page, none, false⟩ ∧ (l.ended page).2.closed = true := by
  rw [ended]
  split
  · exact .inr ⟨rfl, closed_close l⟩
  · exact .inl ⟨_, rfl, closed_close l⟩

theorem reads_fill {l₀ l : Listing α} {page : List α} (hclosed : l.closed = false)
    (hlookahead : l.lookahead = none) (hrest : l₀.rest = page ++ l.entries) (missing : Nat) :
    Reads (l.fill page missing).1 l₀ (l.fill page missing).2 := by
  have hended : l.entries = [] → Reads (l.ended page).1 l₀ (l.ended page).2 := by
    intro hentries
    rcases reads_ended l page with ⟨error, hr, hc⟩ | ⟨hr, hc⟩
    · rw [hr]
      exact hc
    · rw [hr]
      exact ⟨hc, by rw [hrest, hentries, List.append_nil]⟩
  induction missing generalizing l page with
  | zero =>
    rw [fill.eq_def]
    dsimp only
    split
    · exact hended ‹_›
    · rename_i entry entries hentries
      refine ⟨hclosed, ?_⟩
      rw [hrest, hentries]
      rfl
  | succ missing ih =>
    rw [fill.eq_def]
    dsimp only
    split
    · exact hended ‹_›
    · rename_i entry entries hentries
      have hrest' : l₀.rest = page ++ [entry] ++ entries := by
        rw [hrest, hentries, List.append_assoc]
        rfl
      refine ih (l := { l with entries := entries }) hclosed hlookahead hrest' fun hnil => ?_
      rcases reads_ended { l with entries := entries } (page ++ [entry]) with ⟨error, hr, hc⟩ | ⟨hr, hc⟩
      · rw [hr]
        exact hc
      · rw [hr]
        exact ⟨hc, by rw [hrest', show entries = [] from hnil, List.append_nil]⟩

theorem reads_readPage {l : Listing α} (hclosed : l.closed = false) (pageSize : Nat) :
    Reads (l.readPage pageSize).1 l (l.readPage pageSize).2 := by
  rw [Listing.readPage, if_neg (by simp [hclosed])]
  apply reads_fill
  · exact hclosed
  · rfl
  · rfl

end Listing

end WebSSH.Directory
