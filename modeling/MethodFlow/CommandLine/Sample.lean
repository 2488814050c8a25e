import MethodFlow.Project

/-!
The sources that are analysed where no directory is given: a small app in both languages.
-/
namespace MethodFlow.Sample

def javaLines : List String :=
  ["",
    "package com.acme.demo;",
    "",
    "import android.os.Bundle;",
    "",
    "public class MainActivity extends AppCompatActivity implements View.OnClickListener \x7b",
    "    private final UserRepository repo = new UserRepository();",
    "",
    "    @Override",
    "    protected void onCreate(Bundle savedInstanceState) \x7b",
    "        super.onCreate(savedInstanceState);",
    "        setContentView(R.layout.activity_main);",
    "        loadUsers();",
    "        if (savedInstanceState != null) \x7b",
    "            restoreState(savedInstanceState);",
    "        \x7d",
    "    \x7d",
    "",
    "    private void loadUsers() \x7b",
    "        // Fetch from the repository, then render each user",
    "        for (String name : repo.findAll()) \x7b",
    "            render(name);",
    "        \x7d",
    "    \x7d",
    "",
    "    private void restoreState(Bundle state) \x7b",
    "        Log.d(\"MainActivity\", \"restoring\");",
    "        loadUsers();",
    "    \x7d",
    "",
    "    @Override",
    "    public void onClick(View v) \x7b",
    "        finish();",
    "    \x7d",
    "\x7d"]

def kotlinLines : List String :=
  ["",
    "package com.acme.demo",
    "",
    "class UserRepository : BaseRepository(), Closeable \x7b",
    "    fun findAll(): List<String> \x7b",
    "        return store.toList()",
    "    \x7d",
    "",
    "    private fun render(name: String) = Formatter.format(name)",
    "\x7d"]

def text (lines : List String) : String :=
  String.join (lines.map (· ++ "\n"))

def sources : List Source :=
  [⟨"MainActivity.java", text javaLines, none⟩, ⟨"UserRepository.kt", text kotlinLines, none⟩]

end MethodFlow.Sample
