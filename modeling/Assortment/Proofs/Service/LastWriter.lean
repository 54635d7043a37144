import Assortment.Proofs.Service.Disjoint

/-!
# The last writer of each field

Clients write back outdated copies, but only the columns of the fields that a copy has written. So the row of a
product has in the columns of every field what was committed last with that field written, and what the product
was created with if there was no such commit.
-/

namespace Assortment.Service
open Assortment.Goods Assortment.Records Assortment.Storage Assortment.Text Assortment.Time

/-! ## What rows recall of commits -/

/-- Whether a committed copy is a product that was created. -/
def IsNew (q : Product) : Prop := ∃ now e, Advances now none q e

def commitsOf (id : ProductId) (commits : List Product) : List Product := commits.filter (·.id = id)

/-- Whether a row has in each column what was committed there last. The copies are those of its product, in the
order in which they were committed. -/
structure LastWritten (commits : List Product) (row : Row) : Prop where
  /-- Name, description, category, discount and status, each with its columns. -/
  field : ∀ f, f ≠ .basePrice → ∃ q values, Product.lastWriter? f commits = some q
    ∧ fieldValues q f = .ok values ∧ ∀ v ∈ values, row[v.1]? = some v.2
  updatedAt : ∃ q, commits.getLast? = some q ∧ row[Layout.updatedAt]? = some (.timestamp q.updatedAt)
  /-- The time of the last commit that archived the product, or null. -/
  archivedAt : row[Layout.archivedAt]?
    = some (.timestamp ((Product.lastArchived? commits).map Product.updatedAt))
  creation : ∃ q values, commits.head? = some q ∧ IsNew q
    ∧ row[Layout.productId]? = some (.text q.id.text)
    ∧ row[Layout.createdAt]? = some (.timestamp q.createdAt)
    ∧ fieldValues q .basePrice = .ok values ∧ ∀ v ∈ values, row[v.1]? = some v.2

variable {R : Product → Prop} {rows rows' : Rows} {taken : Option Product} {commits : List Product} {w : World}

/-- Whether the products that are found are what committed copies leave, of which the first was a new product
for each identifier. -/
structure Recalls (rows : Rows) (commits : List Product) : Prop where
  found : ∀ id, found? rows id = (Product.standing (commitsOf id commits)).map Product.committed
  first : ∀ id q, (commitsOf id commits).head? = some q → IsNew q
  archived : ∀ q ∈ commits, q.archives = true → q.archivedAt = some q.updatedAt

theorem commitsOf_append (id : ProductId) (commits : List Product) (q : Product) :
    commitsOf id (commits ++ [q]) = commitsOf id commits ++ if q.id = id then [q] else [] := by
  by_cases h : q.id = id <;> simp [commitsOf, h]

theorem Recalls.takes (h : Recalls rows commits) (hc : Coherent rows)
    (ht : Takes (·.dirty = ∅) rows taken rows') : Recalls rows' (commits ++ taken.toList) := by
  cases ht with
  | nothing => simpa using h
  | @copy before now e uid q _ hbefore hadv hpending hsome hlands =>
      refine ⟨fun id => ?_, fun id first hfirst => ?_, fun q' hq' => ?_⟩
      · rw [Option.toList_some, commitsOf_append, hlands.found?_onto hc]
        by_cases hid : id = q.id
        · rw [if_pos hid, if_pos hid.symm, Product.standing_append, h.found]
          cases Product.standing (commitsOf id commits) <;> rfl
        · rw [if_neg hid, if_neg (Ne.symm hid), List.append_nil, h.found]
      · rw [Option.toList_some, commitsOf_append] at hfirst
        by_cases hid : q.id = id
        · subst hid
          cases hof : commitsOf q.id commits with
          | nil =>
              rw [hof, if_pos rfl] at hfirst
              cases hfirst
              rw [h.found, hof] at hsome
              cases before with
              | none => exact ⟨now, e, hadv⟩
              | some p₀ => cases hsome
          | cons first' rest =>
              refine h.first q.id first ?_
              rw [hof] at hfirst ⊢
              exact hfirst
        · rw [if_neg hid, List.append_nil] at hfirst
          exact h.first id first hfirst
      · rcases List.mem_append.1 hq' with hq' | hq'
        · exact h.archived q' hq'
        · cases List.mem_singleton.1 hq'
          exact hadv.archivedAt_eq hbefore

theorem recalls_run (clock : Clock) (nth : Nat → Uuid) (steps : List Step) :
    Recalls ((World.start clock nth).run steps).2.state.store.rows ((World.start clock nth).commits steps) := by
  induction steps using List.reverseRecOn with
  | nil => exact ⟨found?_empty, fun _ _ h => (by cases h), fun _ h => (by cases h)⟩
  | append_singleton steps step ih =>
      have hw := (World.Steady.start clock nth).run steps
      rw [World.run_concat, World.commits_concat]
      exact ih.takes hw.coherent (hw.takes step)

/-! ## Columns -/

theorem IsNew.not_archived {q : Product} (h : IsNew q) : q.archives = false ∧ q.archivedAt = none := by
  obtain ⟨now, e, hadv⟩ := h
  cases hadv with
  | created hq =>
      obtain ⟨_, _, _, _, _, rfl⟩ := Product.create_eq_ok hq
      exact ⟨rfl, rfl⟩

theorem Recalls.lastWritten (h : Recalls rows commits) (hc : Coherent rows) {id : ProductId} {row : Row}
    (hrow : rows[productAddress id]? = some row) : LastWritten (commitsOf id commits) row := by
  obtain ⟨p, _, hs⟩ := hc.product id row hrow
  have hfound := found?_of_stores hrow hs
  rw [h.found] at hfound
  obtain ⟨x, hx, hcommitted⟩ := Option.map_eq_some_iff.1 hfound
  have hs : Stores row x := by
    rwa [← Stores.committed_iff, hcommitted]
  obtain ⟨hkey, hcreated, hupdated, harchived⟩ := hs.keyAndTimes
  refine ⟨fun f hf => ?_, ?_, ?_, ?_⟩
  · have hwriter := Product.map_standing_writer (g := (fieldValues · f)) (fieldValues_merge hf)
      (commitsOf id commits)
    rw [hx] at hwriter
    obtain ⟨q, hq, he⟩ := Option.map_eq_some_iff.1 hwriter.symm
    obtain ⟨values, hvalues, hin⟩ := hs.fieldValues f
    exact ⟨q, values, hq, he.trans hvalues, hin⟩
  · have hlast := Product.map_standing_last (g := Product.updatedAt) (fun _ _ => rfl) (commitsOf id commits)
    rw [hx] at hlast
    obtain ⟨q, hq, he⟩ := Option.map_eq_some_iff.1 hlast.symm
    exact ⟨q, hq, he ▸ hupdated⟩
  · have hlast := Product.archivedAt_standing fun q hq => (h.first id q hq).not_archived
    rw [hx, Option.bind_some] at hlast
    rw [harchived, hlast]
    cases ha : Product.lastArchived? (commitsOf id commits) with
    | none => rfl
    | some q =>
        have hmem : q ∈ commits := (List.mem_filter.1 (List.mem_reverse.1 (List.mem_of_find?_eq_some ha))).1
        rw [Option.bind_some, h.archived q hmem (List.find?_some ha)]
        rfl
  · have hid := Product.map_standing_first (g := Product.id) (fun _ _ => rfl) (commitsOf id commits)
    have hcreation := Product.map_standing_first (g := Product.createdAt) (fun _ _ => rfl)
      (commitsOf id commits)
    have hprice := Product.map_standing_first (g := (fieldValues · .basePrice)) (fun _ _ => rfl)
      (commitsOf id commits)
    rw [hx] at hid hcreation hprice
    cases hhead : (commitsOf id commits).head? with
    | none =>
        rw [hhead] at hid
        cases hid
    | some q =>
        rw [hhead, Option.map_some, Option.map_some, Option.some_inj] at hid hcreation hprice
        obtain ⟨values, hvalues, hin⟩ := hs.fieldValues .basePrice
        exact ⟨q, values, rfl, h.first id q hhead, hid ▸ hkey, hcreation ▸ hcreated, hprice ▸ hvalues, hin⟩

/-! ## Runs -/

/-- The columns that are written when a product is created and never again. -/
def fixedColumns : List String :=
  [Layout.productId, Layout.priceNumerator, Layout.priceDenominator, Layout.createdAt]

theorem LastWritten.fixed {commits commits' : List Product} {row row' : Row} (h : LastWritten commits row)
    (h' : LastWritten commits' row') (hhead : commits'.head? = commits.head?) :
    ∀ column ∈ fixedColumns, row'[column]? = row[column]? := by
  obtain ⟨q, values, hq, _, hkey, hcreated, hvalues, hin⟩ := h.creation
  obtain ⟨q', values', hq', _, hkey', hcreated', hvalues', hin'⟩ := h'.creation
  rw [hhead, hq] at hq'
  cases hq'
  cases hvalues.symm.trans hvalues'
  have hprice : ∀ column ∈ fieldColumns .basePrice, row'[column]? = row[column]? := by
    intro column hcolumn
    obtain ⟨v, hv, rfl⟩ := exists_mem_fieldValues hvalues hcolumn
    rw [hin v hv, hin' v hv]
  intro column hcolumn
  simp only [fixedColumns, List.mem_cons, List.not_mem_nil, or_false] at hcolumn
  rcases hcolumn with rfl | rfl | rfl | rfl
  · rw [hkey, hkey']
  · exact hprice _ (by simp [fieldColumns])
  · exact hprice _ (by simp [fieldColumns])
  · rw [hcreated, hcreated']

/-- What holds of the rows of products after some copies were committed. -/
structure LastWriterWins (w : World) (commits : List Product) : Prop where
  written : ∀ key row, w.state.store.row? Layout.products key = some row →
    LastWritten (commitsOf ⟨key⟩ commits) row
  /-- Some columns never change, whatever steps follow. -/
  fixed : ∀ steps key row, w.state.store.row? Layout.products key = some row →
    ∃ row', (w.run steps).2.state.store.row? Layout.products key = some row'
      ∧ ∀ column ∈ fixedColumns, row'[column]? = row[column]?
  commutes : ∀ i j, w.Commutes i j

/-- However the steps of any number of clients are interleaved, the last writer of each field wins, and clients
that write different fields do not get in each other's way. -/
theorem last_writer_wins (clock : Clock) (nth : Nat → Uuid) (steps : List Step) :
    LastWriterWins ((World.start clock nth).run steps).2 ((World.start clock nth).commits steps) := by
  have hw := fun steps => (World.Steady.start clock nth).run steps
  have hwritten : ∀ steps key row,
      ((World.start clock nth).run steps).2.state.store.row? Layout.products key = some row →
      LastWritten (commitsOf ⟨key⟩ ((World.start clock nth).commits steps)) row :=
    fun steps key row => (recalls_run clock nth steps).lastWritten (hw steps).coherent
  refine ⟨hwritten steps, fun more key row hrow => ?_, fun i j => (hw steps).commutes i j⟩
  have hfirst := hwritten steps key row hrow
  obtain ⟨q, _, hq, _⟩ := hfirst.creation
  rw [← World.run_append]
  -- The copies that are committed later come after those that are there, so the first stays the first.
  have hhead : (commitsOf ⟨key⟩ ((World.start clock nth).commits (steps ++ more))).head?
      = (commitsOf ⟨key⟩ ((World.start clock nth).commits steps)).head? := by
    rw [World.commits_append, commitsOf, List.filter_append, ← commitsOf, List.head?_append, hq]
    rfl
  have hne : commitsOf ⟨key⟩ ((World.start clock nth).commits (steps ++ more)) ≠ [] := by
    intro he
    rw [← hhead, he] at hq
    cases hq
  obtain ⟨p, hp⟩ := Product.exists_standing hne
  have hfound := (recalls_run clock nth (steps ++ more)).found ⟨key⟩
  rw [hp, Option.map_some] at hfound
  obtain ⟨_, _, _, row', hrow', _⟩ := (hw (steps ++ more)).coherent.of_found? hfound
  exact ⟨row', hrow', hfirst.fixed (hwritten (steps ++ more) key row' hrow') hhead⟩

end Assortment.Service
