import CodeChunks.Language.Registry

/-! # The languages known from the start -/
namespace CodeChunks.Languages

def builtinTable : List Language := [
  { name := "python", grammar := "python"
    extensions := ["py", "pyi", "pyw"]
    aliases := ["py", "python3"]
    boundaries := ["class_definition", "decorated_definition", "function_definition"]
    contexts := ["future_import_statement", "import_from_statement", "import_statement"] },
  { name := "javascript", grammar := "javascript"
    extensions := ["js", "mjs", "cjs", "jsx"]
    aliases := ["js", "jsx", "node"]
    boundaries := ["class_declaration", "export_statement", "function_declaration",
      "generator_function_declaration", "lexical_declaration"]
    contexts := ["import_statement"] },
  { name := "typescript", grammar := "typescript"
    extensions := ["ts", "mts", "cts"]
    aliases := ["ts"]
    boundaries := ["abstract_class_declaration", "class_declaration", "enum_declaration",
      "export_statement", "function_declaration", "generator_function_declaration",
      "interface_declaration", "lexical_declaration", "type_alias_declaration"]
    contexts := ["import_statement"] },
  { name := "tsx", grammar := "tsx"
    extensions := ["tsx"]
    aliases := []
    boundaries := ["abstract_class_declaration", "class_declaration", "enum_declaration",
      "export_statement", "function_declaration", "generator_function_declaration",
      "interface_declaration", "lexical_declaration", "type_alias_declaration"]
    contexts := ["import_statement"] },
  { name := "java", grammar := "java"
    extensions := ["java"]
    aliases := []
    boundaries := ["annotation_type_declaration", "class_declaration", "enum_declaration",
      "interface_declaration", "record_declaration"]
    contexts := ["import_declaration", "package_declaration"] },
  { name := "kotlin", grammar := "kotlin"
    extensions := ["kt", "kts"]
    aliases := ["kt"]
    boundaries := ["class_declaration", "function_declaration", "object_declaration"]
    contexts := ["import_header", "package_header"] },
  { name := "go", grammar := "go"
    extensions := ["go"]
    aliases := ["golang"]
    boundaries := ["const_declaration", "function_declaration", "method_declaration",
      "type_declaration", "var_declaration"]
    contexts := ["import_declaration", "package_clause"] },
  { name := "rust", grammar := "rust"
    extensions := ["rs"]
    aliases := ["rs"]
    boundaries := ["const_item", "enum_item", "function_item", "impl_item", "macro_definition",
      "mod_item", "static_item", "struct_item", "trait_item", "type_item"]
    contexts := ["use_declaration"] },
  { name := "c", grammar := "c"
    extensions := ["c", "h"]
    aliases := []
    boundaries := ["enum_specifier", "function_definition", "struct_specifier", "type_definition",
      "union_specifier"]
    contexts := ["preproc_include"] },
  { name := "cpp", grammar := "cpp"
    extensions := ["cpp", "cc", "cxx", "hpp", "hh", "hxx"]
    aliases := ["c++"]
    boundaries := ["class_specifier", "enum_specifier", "function_definition",
      "namespace_definition", "struct_specifier", "template_declaration", "type_definition"]
    contexts := ["preproc_include", "using_declaration"] },
  { name := "csharp", grammar := "csharp"
    extensions := ["cs"]
    aliases := ["c#", "cs", "c_sharp"]
    boundaries := ["class_declaration", "enum_declaration", "interface_declaration",
      "namespace_declaration", "record_declaration", "struct_declaration"]
    contexts := ["using_directive"] },
  { name := "ruby", grammar := "ruby"
    extensions := ["rb"]
    aliases := ["rb"]
    boundaries := ["class", "method", "module", "singleton_method"] },
  { name := "php", grammar := "php"
    extensions := ["php"]
    aliases := []
    boundaries := ["class_declaration", "enum_declaration", "function_definition",
      "interface_declaration", "trait_declaration"]
    contexts := ["namespace_use_declaration"] },
  { name := "bash", grammar := "bash"
    extensions := ["sh", "bash"]
    aliases := ["sh", "shell", "zsh"]
    boundaries := ["function_definition"] },
  { name := "css", grammar := "css"
    extensions := ["css"]
    aliases := []
    boundaries := ["keyframes_statement", "media_statement", "rule_set", "supports_statement"]
    contexts := ["import_statement"] },
  { name := "html", grammar := "html"
    extensions := ["html", "htm"]
    aliases := []
    boundaries := ["element", "script_element", "style_element"] },
  { name := "json", grammar := "json"
    extensions := ["json"]
    aliases := []
    boundaries := ["pair"]
    wrappers := ["object"] },
  { name := "toml", grammar := "toml"
    extensions := ["toml"]
    aliases := []
    boundaries := ["pair", "table", "table_array_element"] },
  { name := "markdown", grammar := "markdown"
    extensions := ["md", "markdown"]
    aliases := ["md"]
    boundaries := ["atx_heading", "block_quote", "fenced_code_block", "html_block",
      "indented_code_block", "list", "paragraph", "pipe_table", "setext_heading"]
    transparent := ["section"]
    embeddings := [{ nodeType := "fenced_code_block", languageKey := .str "lang" }]
    attributes := [("fenced_code_block", [("lang", .str "info_string")])] }]

def builtinExtensions : List (String × String) := [
  ("yaml", "yaml"), ("yml", "yaml"), ("lua", "lua"), ("swift", "swift"), ("scala", "scala"),
  ("sql", "sql")]

def builtin : Languages := ofList builtinTable builtinExtensions

end CodeChunks.Languages
