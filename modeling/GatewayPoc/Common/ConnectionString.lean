import GatewayPoc.Common.Config
import GatewayPoc.Core.Conninfo

/-!
# The connection string

`PostgresConfig::connectionString` writes the parameters of a connection one after the other, each
value as it is.  Both programs give the string to `libpqxx`, so `libpq` reads it.

* `Common.PostgresConfig.connectionString_eq` : it is the plain rendering of five pairs.
* `Common.yields_connectionString_iff` : **an accepted configuration reaches the server exactly if
  none of its values needs quotes or escapes**.
-/

namespace GatewayPoc

namespace Common

open Conninfo (Clean Yields render)

/-- `common::PostgresConfig::connectionString`. -/
def PostgresConfig.connectionString (config : PostgresConfig) : Bytes :=
  ascii "host=" ++ config.host ++ ascii " " ++
    ascii "port=" ++ Decimal.text config.port.toNat ++ ascii " " ++
    ascii "dbname=" ++ config.database ++ ascii " " ++
    ascii "user=" ++ config.user ++ ascii " " ++
    ascii "password=" ++ config.password

/-- The parameters that are meant. -/
def PostgresConfig.parameters (config : PostgresConfig) : List (Bytes × Bytes) :=
  [(ascii "host", config.host), (ascii "port", Decimal.text config.port.toNat),
    (ascii "dbname", config.database), (ascii "user", config.user),
    (ascii "password", config.password)]

variable {config : PostgresConfig}

theorem PostgresConfig.connectionString_eq (config : PostgresConfig) :
    config.connectionString = render config.parameters := by
  have hkeys : ascii "host=" = ascii "host" ++ [Conninfo.equals] ∧
      ascii "port=" = ascii "port" ++ [Conninfo.equals] ∧
      ascii "dbname=" = ascii "dbname" ++ [Conninfo.equals] ∧
      ascii "user=" = ascii "user" ++ [Conninfo.equals] ∧
      ascii "password=" = ascii "password" ++ [Conninfo.equals] ∧
      ascii " " = [Conninfo.space] := by decide
  obtain ⟨hhost, hport, hdbname, huser, hpassword, hspace⟩ := hkeys
  simp only [connectionString, parameters, Conninfo.render_cons_cons, Conninfo.render_singleton,
    hhost, hport, hdbname, huser, hpassword, hspace, List.append_assoc, List.cons_append,
    List.nil_append]

theorem clean_text (n : ℕ) : Clean (Decimal.text n) := by
  have hdigit : ∀ b ∈ Decimal.text n, 48 ≤ b.toNat ∧ b.toNat ≤ 57 := by
    intro b hb
    have h := Decimal.isDigit_of_mem_text b hb
    simpa only [Decimal.isDigit, Bool.and_eq_true, decide_eq_true_eq] using h
  constructor
  · intro b hb
    have h := hdigit b hb
    simp only [Conninfo.isSpace, Conninfo.backslash, Bool.or_eq_false_iff, Bool.and_eq_false_iff,
      decide_eq_false_iff_not, ne_eq, ← UInt8.toNat_inj, UInt8.reduceToNat]
    omega
  · intro hhead
    have h := hdigit _ (List.mem_of_mem_head? hhead)
    simp only [Conninfo.singleQuote, UInt8.reduceToNat] at h
    omega

/-- Of values that are not empty, but for the password, those come back that are clean. -/
theorem yields_iff_of_ne_nil (hhost : config.host ≠ []) (hdatabase : config.database ≠ [])
    (huser : config.user ≠ []) :
    Yields config.connectionString config.parameters ↔ Clean config.host ∧
      Clean config.database ∧ Clean config.user ∧ Clean config.password := by
  rw [config.connectionString_eq, Conninfo.yields_render_iff]
  · simp only [PostgresConfig.parameters, List.forall_mem_cons, clean_text, true_and,
      List.not_mem_nil, false_implies, implies_true, and_true]
  · simp [PostgresConfig.parameters]
  · simp only [PostgresConfig.parameters, List.map_cons, List.map_nil]
    decide
  · have hkeyword : ∀ k ∈ [ascii "host", ascii "port", ascii "dbname", ascii "user",
        ascii "password"], Conninfo.IsKeyword k := by decide
    intro p hp
    exact hkeyword p.1 (List.mem_map_of_mem hp)
  · simp [PostgresConfig.parameters, hhost, hdatabase, huser, Decimal.text_ne_nil]

/-- **The connection string round trip.**  `libpq` reads the five parameters of an accepted
configuration from its connection string, and no others, exactly if none of the four strings needs
quotes or escapes. -/
theorem yields_connectionString_iff {node : NodeView} (h : parsePostgresConfig node = .ok config) :
    Yields config.connectionString config.parameters ↔ Clean config.host ∧
      Clean config.database ∧ Clean config.user ∧ Clean config.password := by
  obtain ⟨⟨-, hhost⟩, -, ⟨-, hdatabase⟩, ⟨-, huser⟩, -⟩ := parsePostgresConfig_ok_iff.1 h
  exact yields_iff_of_ne_nil hhost hdatabase huser

/-- A `[postgres]` table with a password. -/
def samplePostgres (password : Bytes) : NodeView :=
  some (.table [(hostParameter, .string (ascii "localhost")), (portParameter, .integer 5433),
    (databaseParameter, .string (ascii "gateway")), (userParameter, .string (ascii "gateway")),
    (passwordParameter, .string password)])

/-- What is read from it. -/
def sampleConfig (password : Bytes) : PostgresConfig :=
  ⟨ascii "localhost", 5433, ascii "gateway", ascii "gateway", password⟩

theorem parsePostgresConfig_sample (password : Bytes) :
    parsePostgresConfig (samplePostgres password) = .ok (sampleConfig password) := rfl

theorem yields_connectionString_sample :
    Yields (sampleConfig []).connectionString (sampleConfig []).parameters :=
  (yields_connectionString_iff (parsePostgresConfig_sample [])).2 (by decide)

/-- `libpq` ends the password at the space. -/
theorem password_with_space_lost :
    parsePostgresConfig (samplePostgres (ascii "top secret")) =
        .ok (sampleConfig (ascii "top secret")) ∧
      ¬ Yields (sampleConfig (ascii "top secret")).connectionString
        (sampleConfig (ascii "top secret")).parameters := by
  refine ⟨rfl, ?_⟩
  rw [yields_iff_of_ne_nil (by decide) (by decide) (by decide)]
  decide

end Common

end GatewayPoc
