import Mathlib
import MixedMonotone.Matrix

/-!
# Matrices built and read back

A matrix is built from its entries in row-major order or from its rows, and either can be read off
it again. Shape and entries determine the matrix, so building and reading **undo each other**.

* `Matrix.values_eq_entries`: reading row after row meets the entries in the order in
  which they are kept.
* `Matrix.ReadsAs`: what there is to read off a matrix, entry by entry, row by row and all at once.
* `Matrix.ofRowMajor_eq_ok_iff`, `Matrix.ofRows_eq_ok_iff`: a matrix is built exactly from
  what is read off it.
* `Matrix.exists_ofRowMajor_iff`, `Matrix.exists_ofRows_iff`: the data that make a matrix.
* `matrices_read_back`: both ways of building and of reading.
-/

namespace MixedMonotone

namespace Matrix

variable {α : Type} (m : Matrix α)

/-! ## Reading -/

theorem length_rowList : m.rowList.length = m.rows := by simp [rowList]

theorem length_of_mem_rowList {row : List α} (hrow : row ∈ m.rowList) : row.length = m.cols := by
  obtain ⟨i, -, rfl⟩ := List.mem_map.1 hrow
  simp [Matrix.row]

theorem rowList_ne_nil : m.rowList ≠ [] := by
  refine List.ne_nil_of_length_pos ?_
  rw [m.length_rowList]
  exact m.rows_pos

theorem ne_nil_of_mem_rowList {row : List α} (hrow : row ∈ m.rowList) : row ≠ [] := by
  refine List.ne_nil_of_length_pos ?_
  rw [m.length_of_mem_rowList hrow]
  exact m.cols_pos

theorem mem_values_of_mem_row {row : List α} (hrow : row ∈ m.rowList) {a : α} (ha : a ∈ row) :
    a ∈ m.values := List.mem_flatten.2 ⟨row, hrow, ha⟩

/-- The rows, one after the other, are the entries **in the order in which they are kept**. -/
theorem values_eq_entries : m.values = m.entries := by
  have hrows : m.rowList = List.ofFn fun i => List.ofFn (m.get i) := by
    rw [List.ofFn_eq_map]
    exact List.map_congr_left fun i _ => List.ofFn_eq_map.symm
  -- `get` takes the entry in row `i` and column `j` from the place `i * cols + j`
  have hcut := List.ofFn_mul fun k : Fin (m.rows * m.cols) =>
    m.entries.get (k.cast m.length_entries.symm)
  calc m.values = (List.ofFn fun i => List.ofFn (m.get i)).flatten := congrArg List.flatten hrows
    _ = List.ofFn fun k : Fin (m.rows * m.cols) => m.entries.get (k.cast m.length_entries.symm) :=
      hcut.symm
    _ = List.ofFn m.entries.get := (List.ofFn_congr m.length_entries _).symm
    _ = m.entries := List.ofFn_get _

theorem length_values : m.values.length = m.rows * m.cols := by
  rw [m.values_eq_entries, m.length_entries]

theorem getElem?_values (i : Fin m.rows) (j : Fin m.cols) :
    m.values[i * m.cols + j]? = some (m.get i j) := by
  rw [m.values_eq_entries]
  exact List.getElem?_eq_getElem (m.entry_lt i j)

/-- Two matrices of one shape with the same entries are the same. -/
theorem eq_of_values {m n : Matrix α} (hrows : m.rows = n.rows) (hcols : m.cols = n.cols)
    (hvalues : m.values = n.values) : m = n := by
  rw [m.values_eq_entries, n.values_eq_entries] at hvalues
  obtain ⟨r, c, entries, _, _, _⟩ := m
  obtain ⟨r', c', entries', _, _, _⟩ := n
  obtain rfl : r = r' := hrows
  obtain rfl : c = c' := hcols
  obtain rfl : entries = entries' := hvalues
  rfl

/-- A list of rows is that of a matrix if it fits the shape and holds the same entries: lists of the
same lengths can be cut from one list in one way only. -/
theorem rowList_eq_iff {rows : List (List α)} :
    m.rowList = rows ↔
      m.rows = rows.length ∧ (∀ row ∈ rows, row.length = m.cols) ∧ m.values = rows.flatten := by
  constructor
  · rintro rfl
    exact ⟨m.length_rowList.symm, fun _ => m.length_of_mem_rowList, rfl⟩
  · rintro ⟨hrows, hcols, hvalues⟩
    have hlengths : m.rowList.map List.length = rows.map List.length := by
      rw [List.map_eq_replicate_iff.2 fun _ => m.length_of_mem_rowList,
        List.map_eq_replicate_iff.2 hcols, m.length_rowList, hrows]
    exact List.eq_iff_flatten_eq.2 ⟨hvalues, hlengths⟩

/-- The rows are consecutive pieces of the entries. -/
theorem rowList_eq_splitLengths :
    m.rowList = (List.replicate m.rows m.cols).splitLengths m.values := by
  have hsum : (List.replicate m.rows m.cols).sum = m.values.length := by
    rw [List.sum_replicate, m.length_values, smul_eq_mul]
  refine m.rowList_eq_iff.2
    ⟨by simp, fun piece hpiece => ?_, (List.flatten_splitLengths _ _ hsum.ge).symm⟩
  have hlength := List.mem_map_of_mem (f := List.length) hpiece
  rw [List.map_splitLengths_length _ _ hsum.le] at hlength
  exact List.eq_of_mem_replicate hlength

theorem get_map (f : α → α) (i : Fin m.rows) (j : Fin m.cols) :
    (m.map f).get i j = f (m.get i j) := by
  simp only [get, map, List.get_eq_getElem, List.getElem_map]

theorem row_map (f : α → α) (i : Fin m.rows) : (m.map f).row i = (m.row i).map f := by
  unfold row
  rw [List.map_map]
  exact List.map_congr_left fun j _ => m.get_map f i j

/-- The rows of the matrix with a function applied to every entry. -/
theorem rowList_map (f : α → α) : (m.map f).rowList = m.rowList.map (List.map f) := by
  unfold rowList
  rw [List.map_map]
  exact List.map_congr_left fun i _ => m.row_map f i

/-- The matrix **reads as** `data` in `r` rows and `c` columns: the entry in row `i` and column `j`
is the one at `i * c + j`, and the rows are the `r` consecutive pieces of length `c`. -/
structure ReadsAs (m : Matrix α) (r c : Nat) (data : List α) : Prop where
  shape : m.shape = (r, c)
  entry : ∀ (i : Fin m.rows) (j : Fin m.cols), data[i * c + j]? = some (m.get i j)
  values : m.values = data
  rowList : m.rowList = (List.replicate r c).splitLengths data

/-! ## Building -/

variable {m} {r c : Nat} {data : List α} {rows : List (List α)} {arithmetic : Arithmetic}

/-- There is **one** matrix of a shape that holds the data. -/
theorem readsAs_iff : m.ReadsAs r c data ↔ m.rows = r ∧ m.cols = c ∧ m.values = data := by
  constructor
  · intro h
    exact ⟨congrArg Prod.fst h.shape, congrArg Prod.snd h.shape, h.values⟩
  · rintro ⟨rfl, rfl, rfl⟩
    exact ⟨rfl, m.getElem?_values, rfl, m.rowList_eq_splitLengths⟩

theorem ofRowMajor_of_length (hr : 1 ≤ r) (hc : 1 ≤ c) (hdata : data.length = r * c) :
    ofRowMajor r c data arithmetic = .ok ⟨r, c, data, hr, hc, hdata⟩ := by
  unfold ofRowMajor
  rw [dif_neg (Nat.ne_of_gt hr), dif_neg (Nat.ne_of_gt hc), dif_pos hdata]

/-- Data of another length are refused. -/
theorem ofRowMajor_of_length_ne (hdata : data.length ≠ r * c) :
    ofRowMajor r c data arithmetic ≠ .ok m := by
  intro h
  unfold ofRowMajor at h
  split_ifs at h
  -- the shape is too large, or it asks for another number of entries
  split at h
  · cases h
  · split at h <;> cases h

theorem ofRowMajor_eq_ok_iff :
    ofRowMajor r c data arithmetic = .ok m ↔ m.rows = r ∧ m.cols = c ∧ m.values = data := by
  constructor
  · intro h
    have hdata : data.length = r * c := by
      by_contra hdata
      exact ofRowMajor_of_length_ne hdata h
    unfold ofRowMajor at h
    split_ifs at h
    cases h
    exact ⟨rfl, rfl, values_eq_entries _⟩
  · rintro ⟨rfl, rfl, rfl⟩
    rw [ofRowMajor_of_length m.rows_pos m.cols_pos m.length_values]
    exact congrArg Except.ok (eq_of_values rfl rfl (values_eq_entries _))

theorem exists_ofRowMajor_iff :
    (∃ m, ofRowMajor r c data arithmetic = .ok m) ↔ 1 ≤ r ∧ 1 ≤ c ∧ data.length = r * c := by
  constructor
  · rintro ⟨m, hm⟩
    obtain ⟨rfl, rfl, rfl⟩ := ofRowMajor_eq_ok_iff.1 hm
    exact ⟨m.rows_pos, m.cols_pos, m.length_values⟩
  · rintro ⟨hr, hc, hdata⟩
    exact ⟨_, ofRowMajor_of_length hr hc hdata⟩

/-- Rows of one length are put one after the other. -/
theorem ofRows_of_lengths (hne : rows ≠ []) (hlengths : ∀ row ∈ rows, row.length = c) :
    ofRows rows = ofRowMajor rows.length c rows.flatten .checked := by
  obtain ⟨first, rest, rfl⟩ := List.exists_cons_of_ne_nil hne
  obtain rfl : first.length = c := hlengths first List.mem_cons_self
  have hnone : (first :: rest).find? (·.length != first.length) = none :=
    List.find?_eq_none.2 fun row hrow => by simpa using hlengths row hrow
  unfold ofRows
  simp only [List.head?_cons, Option.map_some, Option.getD_some, hnone]

theorem ofRows_eq_ok_iff : ofRows rows = .ok m ↔ m.rowList = rows := by
  constructor
  · intro h
    unfold ofRows at h
    dsimp only at h
    split at h
    · cases h
    · rename_i hnone
      obtain ⟨hrows, hcols, hvalues⟩ := ofRowMajor_eq_ok_iff.1 h
      refine m.rowList_eq_iff.2 ⟨hrows, fun row hrow => ?_, hvalues⟩
      simpa [hcols] using List.find?_eq_none.1 hnone row hrow
  · rintro rfl
    rw [ofRows_of_lengths m.rowList_ne_nil fun _ => m.length_of_mem_rowList]
    exact ofRowMajor_eq_ok_iff.2 ⟨m.length_rowList.symm, rfl, rfl⟩

theorem exists_ofRows_iff :
    (∃ m, ofRows rows = .ok m) ↔ rows ≠ [] ∧ (∀ row ∈ rows, row ≠ []) ∧
      ∀ row ∈ rows, ∀ other ∈ rows, row.length = other.length := by
  constructor
  · rintro ⟨m, hm⟩
    obtain rfl := ofRows_eq_ok_iff.1 hm
    refine ⟨m.rowList_ne_nil, fun _ => m.ne_nil_of_mem_rowList, fun row hrow other hother => ?_⟩
    rw [m.length_of_mem_rowList hrow, m.length_of_mem_rowList hother]
  · rintro ⟨hne, hfull, heven⟩
    obtain ⟨first, hfirst⟩ := List.exists_mem_of_ne_nil rows hne
    have hlengths : ∀ row ∈ rows, row.length = first.length :=
      fun row hrow => heven row hrow first hfirst
    rw [ofRows_of_lengths hne hlengths, exists_ofRowMajor_iff]
    refine ⟨List.length_pos_iff.2 hne, List.length_pos_iff.2 (hfull first hfirst), ?_⟩
    rw [List.length_flatten, List.map_eq_replicate_iff.2 hlengths, List.sum_replicate, smul_eq_mul]

end Matrix

/-- **Building and reading undo each other**, in either arithmetic. Data in row-major order make a
matrix if and only if they fill a shape with a row and a column, and it is the one that reads as
these data. Rows make a matrix if and only if there are some, none is empty and all are equally
long, and it is the one with these rows. Every matrix is built again from its rows, and from its
entries and its shape. -/
theorem matrices_read_back {α : Type} (arithmetic : Arithmetic) (r c : Nat) (data : List α)
    (rows : List (List α)) :
    ((∃ m, Matrix.ofRowMajor r c data arithmetic = .ok m) ↔ 1 ≤ r ∧ 1 ≤ c ∧ data.length = r * c) ∧
    (∀ m, Matrix.ofRowMajor r c data arithmetic = .ok m ↔ m.ReadsAs r c data) ∧
    ((∃ m, Matrix.ofRows rows = .ok m) ↔ rows ≠ [] ∧ (∀ row ∈ rows, row ≠ []) ∧
      ∀ row ∈ rows, ∀ other ∈ rows, row.length = other.length) ∧
    (∀ m, Matrix.ofRows rows = .ok m ↔ m.rowList = rows) ∧
    ∀ m : Matrix α, Matrix.ofRows m.rowList = .ok m ∧
      Matrix.ofRowMajor m.rows m.cols m.values arithmetic = .ok m := by
  refine ⟨Matrix.exists_ofRowMajor_iff, fun m => ?_, Matrix.exists_ofRows_iff,
    fun _ => Matrix.ofRows_eq_ok_iff,
    fun m => ⟨Matrix.ofRows_eq_ok_iff.2 rfl, Matrix.ofRowMajor_eq_ok_iff.2 ⟨rfl, rfl, rfl⟩⟩⟩
  rw [Matrix.ofRowMajor_eq_ok_iff, Matrix.readsAs_iff]

/-- Two rows of three are read back as they were given, and not as three rows of two; rows of other
lengths make no matrix. -/
theorem matrices_read_back_oblong :
    (∃ m, Matrix.ofRowMajor 2 3 [1, 2, 3, 4, 5, 6] .checked = .ok m ∧
      m.rowList = [[1, 2, 3], [4, 5, 6]] ∧ Matrix.ofRows [[1, 2, 3], [4, 5, 6]] = .ok m) ∧
    ¬ ∃ m, Matrix.ofRows [[1, 2], [3]] = .ok m := by
  obtain ⟨hbuilt, hreads, -, -, hback⟩ := matrices_read_back .checked 2 3 [1, 2, 3, 4, 5, 6] []
  obtain ⟨-, -, hragged, -, -⟩ := matrices_read_back .checked 1 1 [] [[1, 2], [3]]
  refine ⟨?_, fun h => absurd (hragged.1 h).2.2 (by decide)⟩
  obtain ⟨m, hm⟩ := hbuilt.2 (by decide)
  have hrows : m.rowList = [[1, 2, 3], [4, 5, 6]] := ((hreads m).1 hm).rowList
  exact ⟨m, hm, hrows, hrows ▸ (hback m).1⟩

end MixedMonotone
