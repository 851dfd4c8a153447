import SqlDialect.Text.Bytes

set_option autoImplicit false

/-! # Reserved words

The words that cannot name a table or column in PostgreSQL unless quoted: its reserved keywords, the
type names that MySQL schemas often use for columns, and the two words that would open a key
clause inside a table definition. -/

namespace SqlDialect

/-- The reserved words in lower case. -/
def reservedWords : List Bytes :=
  ["all", "analyse", "analyze", "and", "any", "array", "as", "asc", "authorization",
    "between", "binary", "both", "case", "cast", "check", "collate", "column", "constraint",
    "create", "cross", "current_date", "current_role", "current_time", "current_timestamp",
    "current_user", "default", "deferrable", "desc", "distinct", "do", "else", "end",
    "except", "false", "fetch", "for", "foreign", "freeze", "from", "full", "grant", "group",
    "having", "ilike", "in", "initially", "inner", "intersect", "into", "is", "isnull",
    "join", "lateral", "leading", "left", "like", "limit", "localtime", "localtimestamp",
    "natural", "not", "notnull", "null", "offset", "on", "only", "or", "order", "outer",
    "overlaps", "placing", "primary", "references", "returning", "right", "select",
    "session_user", "similar", "some", "symmetric", "table", "then", "to", "trailing", "true",
    "union", "unique", "user", "using", "variadic", "verbose", "when", "where", "window",
    "with", "date", "time", "timestamp", "key", "index"].map ascii

end SqlDialect
